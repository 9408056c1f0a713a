import RadminPro.SubnetFilter
import Mathlib.Data.List.TakeWhile

namespace RadminPro

open ByteCodec
open BitPrefix
open TokenList

/-!
# What an allow-list means

A token writes a range: a family, a number of bits and the bits themselves.
The filter built from a list allows exactly the addresses of the ranges that
the tokens of the list write.
-/

/-- The addresses of a family whose first bits are given. -/
structure AddressRange where
  family : AddressFamily
  prefixBits : Nat
  bits : Nat
  deriving DecidableEq

namespace AddressRange

/-- The range around an address. -/
def around
    {family : AddressFamily}
    (address : AddressBytes family)
    (prefixBits : Nat) : AddressRange where
  family := family
  prefixBits := prefixBits
  bits := firstBits prefixBits address.bytes

/-- The address has the family and the first bits of the range. -/
def Contains
    (range : AddressRange)
    (address : (family : AddressFamily) × AddressBytes family) : Prop :=
  address.1 = range.family ∧
    firstBits range.prefixBits address.2.bytes = range.bits

end AddressRange

namespace SubnetFilter

/-! ## The form of a token -/

/-- A token is an address, or an address, a slash and decimal digits. -/
inductive HasForm (address : Bytes) : Bytes → Option Bytes → Prop where
  | host (noSlash : slash ∉ address) : HasForm address address none
  | range
      (noSlash : slash ∉ address)
      {digits : Bytes}
      (nonempty : digits ≠ [])
      (decimal : ∀ digit ∈ digits, isdigit digit = true) :
      HasForm address (address ++ slash :: digits) (some digits)

/-- The number of bits a token asks for; without digits, all of them. -/
def prefixOf (family : AddressFamily) : Option Bytes → Nat
  | none => family.maxPrefix
  | some digits => decimalValue digits

/-- The range that a token writes. -/
def Writes (inetPtonA : InetPton) (token : Bytes) (range : AddressRange) : Prop :=
  ∃ address digits family parsed,
    HasForm address token digits ∧
      parseText inetPtonA address = some ⟨family, parsed⟩ ∧
      prefixOf family digits ≤ family.maxPrefix ∧
      range = AddressRange.around parsed (prefixOf family digits)

/-- The token writes some range. -/
def WellFormed (inetPtonA : InetPton) (token : Bytes) : Prop :=
  ∃ range, Writes inetPtonA token range

/-! ## Masked arrays -/

variable {inetPtonA : InetPton}

theorem maxPrefix_eq (family : AddressFamily) :
    family.maxPrefix = 8 * family.byteCount := by
  cases family with
  | inet => rfl
  | inet6 => rfl

/-- Masking keeps the bits of the prefix. -/
theorem firstBits_maskBytes
    {prefixBits bitStart : Nat}
    {bytes : Bytes}
    (inside : prefixBits - bitStart ≤ 8 * bytes.length) :
    firstBits (prefixBits - bitStart) (maskBytes prefixBits bitStart bytes) =
      firstBits (prefixBits - bitStart) bytes := by
  induction bytes generalizing bitStart with
  | nil => rfl
  | cons byte rest inductionHypothesis =>
      simp only [maskBytes]
      by_cases beyond : prefixBits ≤ bitStart
      · have noBits : prefixBits - bitStart = 0 := by omega
        rw [noBits, firstBits_cons_of_le _ _ (by decide),
          firstBits_cons_of_le _ _ (by decide)]
        rw [Nat.div_eq_of_lt (UInt8.toNat_lt _),
          Nat.div_eq_of_lt (UInt8.toNat_lt _)]
      · by_cases within : prefixBits < bitStart + 8
        · have inByte : prefixBits - bitStart ≤ 8 := by omega
          have masked :
              maskByte prefixBits bitStart byte =
                byte &&& highMask (prefixBits - bitStart) := by
            rw [maskByte, if_neg (by omega), if_pos (by omega)]
          rw [firstBits_cons_of_le _ _ inByte, firstBits_cons_of_le _ _ inByte,
            masked, and_highMask byte inByte,
            Nat.mul_div_cancel _ (Nat.two_pow_pos _)]
        · have kept : maskByte prefixBits bitStart byte = byte := by
            rw [maskByte, if_neg (by omega), if_neg (by omega)]
          have split :
              prefixBits - bitStart = 8 + (prefixBits - (bitStart + 8)) := by
            omega
          have inRest : prefixBits - (bitStart + 8) ≤ 8 * rest.length := by
            rw [List.length_cons] at inside
            omega
          rw [split, kept, firstBits_cons_eq_iff (by simpa using inRest) inRest]
          exact ⟨rfl, inductionHypothesis inRest⟩

/-- The array of an address starts with it. -/
theorem take_ofAddress
    {family : AddressFamily}
    (address : AddressBytes family) :
    (AddressArray.ofAddress address).bytes.take family.byteCount =
      address.bytes := by
  rw [AddressArray.ofAddress, List.take_left' address.size]

/-- The address part of a masked array. -/
theorem take_maskInPlace
    {family : AddressFamily}
    (address : AddressBytes family)
    (prefixBits : Nat) :
    (maskInPlace (AddressArray.ofAddress address) family
        prefixBits).bytes.take family.byteCount =
      maskBytes prefixBits 0 address.bytes := by
  simp only [maskInPlace, take_ofAddress]
  apply List.take_left'
  rw [length_maskBytes, address.size]

/-- Only the bytes that belong to the family are compared. -/
theorem matchPrefix_iff
    {a net : AddressArray}
    {size prefixBits : Nat}
    (inArray : size ≤ 16)
    (inside : prefixBits ≤ 8 * size) :
    matchPrefix a net prefixBits = true ↔
      firstBits prefixBits (a.bytes.take size) =
        firstBits prefixBits (net.bytes.take size) := by
  have sized : (a.bytes.take size).length = size := by
    rw [List.length_take, a.size, min_eq_left inArray]
  have netSized : (net.bytes.take size).length = size := by
    rw [List.length_take, net.size, min_eq_left inArray]
  rw [firstBits_eq_iff (sized.trans netSized.symm) (by rw [sized]; exact inside)]
  have wholeBytes : prefixBits / 8 ≤ size := by omega
  rw [List.take_take, List.take_take, min_eq_left wholeBytes]
  by_cases noRest : prefixBits % 8 = 0
  · simp [matchPrefix, noRest]
  · have inBytes : prefixBits / 8 < size := by omega
    simp [matchPrefix, noRest, List.getD_eq_getElem?_getD,
      List.getElem?_take_of_lt inBytes]

/-- A rule matches the addresses that agree with it in the first bits. -/
theorem matchPrefix_masked_iff
    {family : AddressFamily}
    (address own : AddressBytes family)
    {prefixBits : Nat}
    (inside : prefixBits ≤ family.maxPrefix) :
    matchPrefix (AddressArray.ofAddress address)
        (maskInPlace (AddressArray.ofAddress own) family prefixBits)
        prefixBits = true ↔
      firstBits prefixBits address.bytes = firstBits prefixBits own.bytes := by
  have inArray : family.byteCount ≤ 16 := by
    cases family with
    | inet => decide
    | inet6 => decide
  rw [maxPrefix_eq] at inside
  have kept :
      firstBits prefixBits (maskBytes prefixBits 0 own.bytes) =
        firstBits prefixBits own.bytes := by
    have inBytes : prefixBits - 0 ≤ 8 * own.bytes.length := by
      rw [own.size]
      exact inside
    exact firstBits_maskBytes inBytes
  rw [matchPrefix_iff inArray inside, take_ofAddress, take_maskInPlace, kept]

/-! ## Tokens and their rules -/

/-- The prefix length that the code passes on for a token. -/
def lengthOf : Option Bytes → Int
  | none => -1
  | some digits => atoi digits

/-- The rule of an address and a number of bits. -/
def ruleFor
    {family : AddressFamily}
    (parsed : AddressBytes family)
    (prefixBits : Nat) : Rule where
  family := family
  net := maskInPlace (AddressArray.ofAddress parsed) family prefixBits
  prefixBits := prefixBits

/-- The length is the one the token asks for, or both are too long. -/
theorem lengthOf_spec (family : AddressFamily) (digits : Option Bytes) :
    let prefixLength :=
      if lengthOf digits < 0 then (family.maxPrefix : Int) else lengthOf digits
    (prefixLength > family.maxPrefix ∧
        family.maxPrefix < prefixOf family digits) ∨
      (prefixLength = prefixOf family digits ∧
        prefixOf family digits ≤ family.maxPrefix) := by
  have small : family.maxPrefix ≤ 128 := by
    cases family with
    | inet => decide
    | inet6 => decide
  cases digits with
  | none =>
      simp [lengthOf, prefixOf]
  | some digits =>
      simp only [lengthOf, prefixOf, atoi]
      omega

/-- The rule of an address exists when it parses and the length fits. -/
theorem ruleOf_eq_some_iff
    {addr : Bytes}
    {digits : Option Bytes}
    {rule : Rule} :
    ruleOf inetPtonA addr (lengthOf digits) = some rule ↔
      ∃ family parsed,
        parseText inetPtonA addr = some ⟨family, parsed⟩ ∧
          prefixOf family digits ≤ family.maxPrefix ∧
          rule = ruleFor parsed (prefixOf family digits) := by
  unfold ruleOf parseAddr
  cases parse : parseText inetPtonA addr with
  | none =>
      simp
  | some parsed =>
      obtain ⟨family, address⟩ := parsed
      simp only [Option.map_some]
      rcases lengthOf_spec family digits with ⟨long, tooLong⟩ | ⟨same, fits⟩
      · rw [if_pos long]
        constructor
        · rintro ⟨⟩
        · rintro ⟨_, _, isParsed, fits, _⟩
          cases isParsed
          exact absurd tooLong (not_lt.mpr fits)
      · rw [if_neg (by rw [same]; omega), same, Int.toNat_natCast]
        constructor
        · intro isRule
          exact ⟨family, address, rfl, fits, (Option.some.inj isRule).symm⟩
        · rintro ⟨_, _, isParsed, _, rfl⟩
          cases isParsed
          rfl

/-- A token yields the rule of the range that it writes. -/
theorem cidrRule_eq_some_iff
    {token : Bytes}
    {rule : Rule} :
    cidrRule inetPtonA token = some rule ↔
      ∃ address digits,
        HasForm address token digits ∧
          ruleOf inetPtonA address (lengthOf digits) = some rule := by
  constructor
  · intro isRule
    unfold cidrRule at isRule
    have whole : token.takeWhile (· != slash) ++ token.dropWhile (· != slash) =
        token := List.takeWhile_append_dropWhile
    have noSlash : slash ∉ token.takeWhile (· != slash) := by
      intro member
      simpa using List.mem_takeWhile_imp member
    cases rest : token.dropWhile (· != slash) with
    | nil =>
        rw [rest, List.append_nil] at whole
        rw [rest] at isRule
        rw [whole] at noSlash
        exact ⟨token, none, .host noSlash, isRule⟩
    | cons ends bits =>
        have isSlash : ends = slash := by
          have stopped := List.head?_dropWhile_not (· != slash) token
          simpa [rest] using stopped
        subst isSlash
        rw [rest] at isRule whole
        simp only at isRule
        split at isRule
        · cases isRule
        · next nonempty =>
            split at isRule
            · cases isRule
            · next decimal =>
                refine ⟨token.takeWhile (· != slash), some bits, ?_, isRule⟩
                have form :
                    HasForm (token.takeWhile (· != slash))
                      (token.takeWhile (· != slash) ++ slash :: bits)
                      (some bits) :=
                  .range noSlash (by simpa using nonempty) (by simpa using decimal)
                rwa [whole] at form
  · rintro ⟨address, digits, form, isRule⟩
    have passes : ∀ {text : Bytes}, slash ∉ text →
        ∀ c ∈ text, (c != slash) = true := by
      intro text noSlash c member
      have different : c ≠ slash := fun same => noSlash (same ▸ member)
      simpa using different
    cases form with
    | host noSlash =>
        rw [cidrRule, List.dropWhile_eq_nil_iff.mpr (passes noSlash)]
        exact isRule
    | range noSlash nonempty decimal =>
        rw [cidrRule, List.dropWhile_append_of_pos (passes noSlash),
          List.takeWhile_append_of_pos (passes noSlash)]
        have isDecimal := List.all_eq_true.mpr decimal
        simpa [nonempty, isDecimal, lengthOf] using isRule

/-- A token yields a rule when it writes a range, and the rule is its own. -/
theorem cidrRule_writes
    {token : Bytes}
    {rule : Rule} :
    cidrRule inetPtonA token = some rule ↔
      ∃ address digits family parsed,
        HasForm address token digits ∧
          parseText inetPtonA address = some ⟨family, parsed⟩ ∧
          prefixOf family digits ≤ family.maxPrefix ∧
          rule = ruleFor parsed (prefixOf family digits) := by
  simp only [cidrRule_eq_some_iff, ruleOf_eq_some_iff]
  constructor
  · rintro ⟨address, digits, form, family, parsed, rest⟩
    exact ⟨address, digits, family, parsed, form, rest⟩
  · rintro ⟨address, digits, family, parsed, form, rest⟩
    exact ⟨address, digits, form, family, parsed, rest⟩

/-- The tokens that yield a rule are the well-formed ones. -/
theorem wellFormed_iff {token : Bytes} :
    WellFormed inetPtonA token ↔ (cidrRule inetPtonA token).isSome = true := by
  rw [Option.isSome_iff_exists]
  simp only [cidrRule_writes, WellFormed, Writes]
  constructor
  · rintro ⟨_, address, digits, family, parsed, form, parse, fits, _⟩
    exact ⟨_, address, digits, family, parsed, form, parse, fits, rfl⟩
  · rintro ⟨_, address, digits, family, parsed, form, parse, fits, _⟩
    exact ⟨_, address, digits, family, parsed, form, parse, fits, rfl⟩

instance (inetPtonA : InetPton) (token : Bytes) :
    Decidable (WellFormed inetPtonA token) :=
  decidable_of_iff _ wellFormed_iff.symm

/-! ## Scanning a list -/

/-- The rules that the tokens of a text yield. -/
def rulesOf (inetPtonA : InetPton) (text : Bytes) : List Rule :=
  (tokens isSeparator text).filterMap (cidrRule inetPtonA)

/-- What the scan has come to after a text. -/
def scanned (inetPtonA : InetPton) (scan : ListScan) (text : Bytes) : ListScan where
  filter := { rules := scan.filter.rules ++ rulesOf inetPtonA text }
  added := scan.added + (rulesOf inetPtonA text).length

/-- Completing a token adds its rule. -/
theorem flush_eq
    (inetPtonA : InetPton)
    {scan : ListScan}
    (clean : ∀ c ∈ scan.token, isSeparator c = false) :
    flush inetPtonA scan = scanned inetPtonA scan scan.token := by
  obtain ⟨filter, added, token⟩ := scan
  rw [scanned, rulesOf, tokens_of_clean clean, flush]
  cases token with
  | nil =>
      simp
  | cons c rest =>
      cases isRule : cidrRule inetPtonA (c :: rest) with
      | none => simp [addCidr, isRule]
      | some rule => simp [addCidr, isRule]

/-- The scan adds the rules of the tokens of the list. -/
theorem flush_foldl_feed
    (inetPtonA : InetPton)
    (list : Bytes)
    {scan : ListScan}
    (clean : ∀ c ∈ scan.token, isSeparator c = false) :
    flush inetPtonA (list.foldl (feed inetPtonA) scan) =
      scanned inetPtonA scan (scan.token ++ list) := by
  induction list generalizing scan with
  | nil =>
      rw [List.append_nil]
      exact flush_eq inetPtonA clean
  | cons c rest inductionHypothesis =>
      rw [List.foldl_cons]
      cases ends : isSeparator c with
      | true =>
          have flushed := flush_eq inetPtonA clean
          rw [feed, if_pos ends, inductionHypothesis (by simp [flushed, scanned]),
            flushed]
          simp only [scanned, rulesOf, List.nil_append,
            tokens_append_separator scan.token rest ends, List.filterMap_append,
            List.length_append, List.append_assoc, Nat.add_assoc]
      | false =>
          have stillClean :
              ∀ other ∈ scan.token ++ [c], isSeparator other = false := by
            intro other member
            rcases List.mem_append.mp member with earlier | last
            · exact clean other earlier
            · rwa [List.mem_singleton.mp last]
          rw [feed, if_neg (by simp [ends]), inductionHypothesis stillClean]
          simp only [scanned, List.append_assoc, List.singleton_append]

/-- A list adds the rules of its tokens, and says how many. -/
theorem addList_eq (filter : SubnetFilter) (list : Bytes) :
    filter.addList inetPtonA list =
      ((rulesOf inetPtonA list).length,
        { rules := filter.rules ++ rulesOf inetPtonA list }) := by
  have clean :
      ∀ c ∈ (⟨filter, 0, []⟩ : ListScan).token, isSeparator c = false := by
    simp
  have scan := flush_foldl_feed inetPtonA list clean
  simp only [addList, scan, scanned, List.nil_append, Nat.zero_add]

/-! ## Looking an address up -/

/-- An address is allowed when it parses and some rule matches it. -/
theorem isAllowed_iff
    {filter : SubnetFilter}
    {ip : Bytes} :
    filter.isAllowed inetPtonA ip = true ↔
      ∃ family peer,
        parseText inetPtonA ip = some ⟨family, peer⟩ ∧
          ∃ rule ∈ filter.rules,
            rule.family = family ∧
              matchPrefix (AddressArray.ofAddress peer) rule.net
                rule.prefixBits = true := by
  unfold isAllowed parseAddr
  cases parse : parseText inetPtonA ip with
  | none =>
      simp
  | some parsed =>
      obtain ⟨family, peer⟩ := parsed
      cases rules : filter.rules with
      | nil => simp
      | cons rule rest =>
          simp only [List.isEmpty_cons, Bool.false_eq_true, if_false,
            Option.map_some, List.any_eq_true, Bool.and_eq_true, beq_iff_eq]
          constructor
          · intro matched
            exact ⟨family, peer, rfl, matched⟩
          · rintro ⟨_, _, isParsed, matched⟩
            cases isParsed
            exact matched

/-- Some token of the list writes the range. -/
def ListWrites (inetPtonA : InetPton) (list : Bytes) (range : AddressRange) : Prop :=
  ∃ token, Maximal isSeparator list token ∧ Writes inetPtonA token range

/-- The filter of a list allows exactly the addresses of its ranges. -/
theorem isAllowed_addList_iff
    {list ip : Bytes} :
    (addList inetPtonA {} list).2.isAllowed inetPtonA ip = true ↔
      ∃ peer range,
        parseText inetPtonA ip = some peer ∧
          ListWrites inetPtonA list range ∧ range.Contains peer := by
  rw [isAllowed_iff, addList_eq]
  simp only [List.nil_append, rulesOf, List.mem_filterMap, mem_tokens_iff,
    cidrRule_writes]
  constructor
  · rintro ⟨family, peer, parse, rule, ⟨token, maximal, address, digits,
      ruleFamily, own, form, parseOwn, fits, rfl⟩, rfl, matched⟩
    refine ⟨⟨ruleFamily, peer⟩, _, parse,
      ⟨token, maximal, address, digits, ruleFamily, own, form, parseOwn, fits,
        rfl⟩, rfl, ?_⟩
    exact (matchPrefix_masked_iff peer own fits).mp matched
  · rintro ⟨⟨peerFamily, peer⟩, range, parse, ⟨token, maximal, address, digits,
      family, own, form, parseOwn, fits, rfl⟩, sameFamily, sameBits⟩
    simp only [AddressRange.around] at sameFamily sameBits
    subst sameFamily
    refine ⟨peerFamily, peer, parse, _, ⟨token, maximal, address, digits,
      peerFamily, own, form, parseOwn, fits, rfl⟩, rfl, ?_⟩
    exact (matchPrefix_masked_iff peer own fits).mpr sameBits

/-- Adding a list keeps every permission. -/
theorem isAllowed_addList_of_isAllowed
    {filter : SubnetFilter}
    {ip : Bytes}
    (list : Bytes)
    (allowed : filter.isAllowed inetPtonA ip = true) :
    (filter.addList inetPtonA list).2.isAllowed inetPtonA ip = true := by
  obtain ⟨family, peer, parse, rule, member, matched⟩ := isAllowed_iff.mp allowed
  rw [addList_eq]
  exact isAllowed_iff.mpr
    ⟨family, peer, parse, rule, List.mem_append_left _ member, matched⟩

/--
A list allows the addresses that share the prefix of one of its well-formed
tokens, and as many rules are added as it has well-formed tokens.  Only the
ranges that are written matter, lists only add permissions, and a malformed
token leaves the filter as it is.
-/
theorem allow_list_semantics (inetPtonA : InetPton) (list ip : Bytes) :
    ((addList inetPtonA {} list).2.isAllowed inetPtonA ip = true ↔
        ∃ token address digits family own peer,
          Maximal isSeparator list token ∧
            HasForm address token digits ∧
            parseText inetPtonA address = some ⟨family, own⟩ ∧
            parseText inetPtonA ip = some ⟨family, peer⟩ ∧
            prefixOf family digits ≤ family.maxPrefix ∧
            firstBits (prefixOf family digits) own.bytes =
              firstBits (prefixOf family digits) peer.bytes) ∧
      (addList inetPtonA {} list).1 =
        ((tokens isSeparator list).filter
          fun token => WellFormed inetPtonA token).length ∧
      (∀ other,
        (∀ range, ListWrites inetPtonA list range →
          ListWrites inetPtonA other range) →
        (addList inetPtonA {} list).2.isAllowed inetPtonA ip = true →
        (addList inetPtonA {} other).2.isAllowed inetPtonA ip = true) ∧
      (∀ filter : SubnetFilter,
        filter.isAllowed inetPtonA ip = true →
        (filter.addList inetPtonA list).2.isAllowed inetPtonA ip = true) ∧
      ∀ (filter : SubnetFilter) (token : Bytes),
        ¬WellFormed inetPtonA token →
        filter.addCidr inetPtonA token = (false, filter) := by
  refine ⟨?_, ?_, ?_, ?_, ?_⟩
  · rw [isAllowed_addList_iff]
    constructor
    · rintro ⟨⟨peerFamily, peer⟩, range, parse, ⟨token, maximal, address,
        digits, family, own, form, parseOwn, fits, rfl⟩, sameFamily, sameBits⟩
      simp only [AddressRange.around] at sameFamily sameBits
      subst sameFamily
      exact ⟨token, address, digits, peerFamily, own, peer, maximal, form,
        parseOwn, parse, fits, sameBits.symm⟩
    · rintro ⟨token, address, digits, family, own, peer, maximal, form,
        parseOwn, parse, fits, sameBits⟩
      exact ⟨⟨family, peer⟩, _, parse, ⟨token, maximal, address, digits,
        family, own, form, parseOwn, fits, rfl⟩, rfl, sameBits.symm⟩
  · rw [addList_eq, rulesOf, List.length_filterMap_eq_countP,
      List.countP_eq_length_filter]
    simp only [wellFormed_iff, Bool.decide_eq_true]
  · intro other covers allowed
    obtain ⟨peer, range, parse, writes, contains⟩ :=
      isAllowed_addList_iff.mp allowed
    exact isAllowed_addList_iff.mpr
      ⟨peer, range, parse, covers range writes, contains⟩
  · intro filter allowed
    exact isAllowed_addList_of_isAllowed list allowed
  · intro filter token malformed
    have noRule : cidrRule inetPtonA token = none := by
      simpa [wellFormed_iff] using malformed
    rw [addCidr, noRule]

end SubnetFilter

end RadminPro
