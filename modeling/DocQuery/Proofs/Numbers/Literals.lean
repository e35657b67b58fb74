import DocQuery.Proofs.Comparison.Broadcast
import DocQuery.Proofs.Grammar.Acceptance
import DocQuery.Proofs.Numbers.Exactness
import DocQuery.Proofs.Numbers.Tokens
import DocQuery.Proofs.Output.Steps
import DocQuery.Proofs.RoundTrip.Writing

/-!
# Numbers in queries and in documents

A text that is a number in a query and in a document means the same integer in both. If it has a
fraction, the query takes the nearest binary64 number, while the document takes one that is at most
five ranks away from it, and the nearest one if the decimal is simple. So a comparison of a number
of a document with the same text may fail.

* `exists_number_of_isNumberToken`: the two meanings of a text.
* `exists_isNumberToken_ne`: they can differ, and one of them can be out of range.
-/

namespace DocQuery

open Grammar.Derivation

/-! ## Number texts as a whole -/

/-- A text is a single number token of the given kind. -/
def IsNumberToken (text : String) (kind : Token.Kind) : Prop :=
  kind.isNumber = true ∧
    ∃ lexer, (Lexer.ofString text).next = (.ok ⟨kind, 0⟩, lexer) ∧ lexer.rest = []

/-- A text that is a single number token is recognised as a whole. -/
theorem IsNumberToken.exists_scan {text : String} {kind : Token.Kind}
    (h : IsNumberToken text kind) :
    ∃ c rest lexeme, text.toList = c :: rest ∧ Lexeme.scan c rest = .ok lexeme ∧
      lexeme.kind = kind ∧ lexeme.source = c :: rest ∧ lexeme.rest = [] := by
  obtain ⟨hnumber, lexer, hnext, hrest⟩ := h
  rcases Lexer.next_eq_ok hnext with
    ⟨-, htoken, -⟩ | ⟨c, rest, lexeme, hstart, hscan, htoken, hafter⟩
  all_goals obtain ⟨rfl, hoffset⟩ := Token.mk.inj htoken
  · cases hnumber
  · -- the token is all that the text holds behind white space
    have hcovers := Lexeme.source_append_rest_of_scan hscan
    have hlast : lexeme.rest = [] := (congrArg Lexer.rest hafter).symm.trans hrest
    rw [hlast, List.append_nil] at hcovers
    -- the token begins with the text, so no white space was passed before it
    have hskipped : text.toList.takeWhile isBlank = [] := by
      refine eq_nil_of_utf8Length_eq_zero ?_
      have hzero : 0 = 0 + utf8Length (text.toList.takeWhile isBlank) := hoffset
      omega
    have hdropped : text.toList.dropWhile isBlank = c :: rest := hstart
    have hsplit := List.takeWhile_append_dropWhile (p := isBlank) (l := text.toList)
    rw [hskipped, hdropped, List.nil_append] at hsplit
    exact ⟨c, rest, lexeme, hsplit.symm, hscan, rfl, hcovers, hlast⟩

/-- A text that begins with a superfluous zero is no document. -/
theorem Json.read?_of_zeroLed {text : String} (h : Numeral.ZeroLed text.toList) :
    read? text = none := by
  obtain ⟨c, rest, htext, hc⟩ := h
  have hother : c ∉ ['.', 'e', 'E', ' ', '\t', '\n', '\r'] := Lexeme.not_mem_of_class (by decide) hc
  have hspace : isSpace c = false := by simp_all [isSpace]
  -- the zero alone is a whole part, and what follows it neither goes on with it nor ends the text
  have hscan : Numeral.scan? ('0' :: c :: rest) = some (⟨false, ['0'], none, none⟩, c :: rest) := by
    simp only [List.mem_cons, not_or] at hother
    simp [Numeral.scan?, Numeral.scanMinus, Numeral.scanWhole?, Numeral.scanFraction?,
      Numeral.scanPower?, hother]
  have hzero : Numeral.toNumber? ⟨false, ['0'], none, none⟩ = some (.int 0 (by decide)) := by
    decide +kernel
  have hread : (readValue? maxDepth ([] ++ '0' :: c :: rest)).map Reading.both = _ :=
    readValue?_of_scan? (List.forall_mem_nil _) rfl hscan
  rw [List.nil_append, ← htext, hzero] at hread
  refine read?_eq_none_of_rest hread ?_
  rw [skipSpace_cons hspace]
  exact List.cons_ne_nil _ _

/-! ## The two meanings of a text -/

/-- Whether two numbers are the same integer, or binary64 numbers of the same sign whose ranks are
at most five apart. -/
def Number.Beside : Number → Number → Prop
  | .int a _, .int b _ => a = b
  | .float x, .float y => x.negative = y.negative ∧ |(x.rank : Int) - y.rank| ≤ 5
  | _, _ => False

/-- A number is beside itself. -/
theorem Number.beside_refl (a : Number) : a.Beside a := by
  cases a with
  | int => rfl
  | float => exact ⟨rfl, by simp⟩

/-- Numbers beside each other are the same if they are equal. -/
theorem Number.Beside.equal_iff {a b : Number} (h : a.Beside b) : b.equal a = true ↔ a = b := by
  cases a with
  | int a _ =>
    cases b with
    | int b _ =>
      obtain rfl : a = b := h
      simp [equal, order_int]
    | float y => exact h.elim
  | float x =>
    cases b with
    | int b _ => exact h.elim
    | float y =>
      -- two zeros are equal whatever their signs are, but here the signs agree
      obtain ⟨hsign, -⟩ := h
      rw [equal, beq_iff_eq]
      show Binary64.order y x = .eq ↔ _
      rw [Binary64.order_eq_eq_iff_same, Binary64.same, beq_iff_eq]
      obtain ⟨negative, rank, _⟩ := x
      obtain ⟨other, second, _⟩ := y
      obtain rfl : negative = other := hsign
      cases negative <;> simp [Binary64.signedRank, eq_comm]

/-- Digits alone are an integer if it fits 64 bits. -/
theorem Numeral.toInt?_digits (whole : List Char) :
    toInt? ⟨false, whole, none, none⟩ = Number.ofInt? (Nat.ofDigitChars 10 whole 0) := by
  simp only [toInt?, Option.isSome_none, Bool.false_eq_true, or_self, if_false]

/-- The digits of an integer stand for the same number in a query and in a document. -/
theorem exists_literal_of_integerKind {whole : List Char} {kind : Token.Kind}
    (h : Lexeme.integerKind whole = .ok kind) :
    ∃ number : Number, Literal [kind] (.number number) ∧
      Numeral.toNumber? ⟨false, whole, none, none⟩ = some number := by
  have hnumber {n : Nat} (hvalue : Nat.ofDigitChars 10 whole 0 = n)
      (hrange : -2 ^ 63 ≤ (n : Int) ∧ (n : Int) < 2 ^ 64) :
      Numeral.toNumber? ⟨false, whole, none, none⟩ = some (.int n hrange) := by
    have hfits : Number.ofInt? n = some (.int n hrange) := dif_pos hrange
    rw [Numeral.toNumber?, Numeral.toInt?_digits, hvalue, hfits]
  -- the query chooses between two words, a document has a single kind of integers
  unfold Lexeme.integerKind at h
  dsimp only at h
  split at h
  · rename_i hlt
    cases h
    refine ⟨_, .integer _, ?_⟩
    rw [hnumber rfl (by omega), Number.ofInt64, Option.some_inj, Number.int.injEq,
      Int64.toInt_ofNat_of_lt hlt]
  · split at h
    · rename_i hlt
      cases h
      refine ⟨_, .unsigned _, ?_⟩
      rw [hnumber rfl (by omega), Number.ofUInt64, Option.some_inj, Number.int.injEq,
        UInt64.toNat_ofNat_of_lt' hlt]
    · cases h

section Texts

variable {text : String} {kind : Token.Kind}

/-- The only token of a text. -/
theorem IsNumberToken.spells (h : IsNumberToken text kind) : Spells text.toList [kind] [] := by
  obtain ⟨c, rest, lexeme, htext, hscan, rfl, -, hlast⟩ := h.exists_scan
  rw [htext]
  exact .cons hscan (hlast ▸ .nil _)

/-- A text that is a literal is parsed as this literal. -/
theorem IsNumberToken.parse_eq_ok (h : IsNumberToken text kind) {value : Json}
    (hliteral : Literal [kind] value) : Selector.parse text = .ok (.single (.constant value)) :=
  (Selector.parse_eq_ok_iff ..).2
    ⟨[], _, blank_nil, .intro (Path.literal hliteral) blank_nil, h.spells⟩

/-- A text whose number is out of range is no selector. -/
theorem IsNumberToken.parse_ne_ok (h : IsNumberToken text (.float none)) (selector : Selector) :
    Selector.parse text ≠ .ok selector := by
  intro hparse
  obtain ⟨b, ks, hb, ⟨hpath, -⟩, hspells⟩ := (Selector.parse_eq_ok_iff ..).1 hparse
  have hkinds := hspells.kinds_eq h.spells
  -- the only token is the first one of the selector, and no selector begins with it
  cases b with
  | cons kind b =>
    obtain rfl := hb kind (by simp)
    cases hkinds
  | nil =>
    cases hpath with
    | root => cases hkinds
    | named => cases hkinds
    | steps hhead =>
      obtain ⟨kind, ls, rfl, hbegins⟩ := hhead.exists_cons
      obtain ⟨rfl, -⟩ := List.cons.inj hkinds
      exact hbegins
    | literal hliteral => cases hliteral <;> cases hkinds

/-- A comparison of a member with a literal of a single token is parsed. -/
theorem Filter.parse_compare_literal (op : Operator) {value : Json}
    (hliteral : Literal [kind] value) (hspells : Spells text.toList [kind] []) :
    Filter.parse (".x " ++ op.symbol ++ " " ++ text) =
      .ok (.compare (.single (.field "x")) op (.single (.constant value))) := by
  have hkind : kind ≠ .separator := by
    rintro rfl
    cases hliteral
  obtain ⟨infixKind, hinfix, hblank, hsymbol⟩ := Spells.symbol op text.toList
  have hchain : Chain ([.dot, .identifier "x"] ++ []) [.field "x"] := .cons (.field "x") .nil
  have hpath : Path [.dot, .identifier "x"] (.single (.field "x")) := .steps (.field "x") .nil
  have hderived := Predicate.compare (.intro hpath blank_separator) hinfix
    blank_separator (.intro (.literal hliteral) blank_nil)
  refine (Filter.parse_eq_ok_iff ..).2 ⟨[], _, blank_nil, hderived, ?_⟩
  have hname :
      Spells ('.' :: ("x".toList ++ ' ' :: (op.symbol.toList ++ ' ' :: text.toList))) _ _ :=
    .dotName (by decide) (ends_cons (by decide) _)
  have hmiddle := (hsymbol.append (hspells.space hkind)).space hblank
  have hall := hname.append hmiddle
  simpa using hall

/-! ## The two meanings in a comparison -/

/-- A text that is decoded as a number is decoded as the same number as the only member of an
object. -/
theorem Json.read?_member {n : Numeral} {text : String} {number : Number}
    (htext : n.IsText text.toList) (hnumber : n.toNumber? = some number) :
    read? ("\x7b\"x\": " ++ text ++ "\x7d") = some (.object [("x", .number number)]) := by
  have hvalue : (readValue? 126 ([' '] ++ (text.toList ++ ['\x7d']))).map Reading.both = _ :=
    readValue?_of_isText htext (by simp [isSpace]) (ends_cons (by decide) [])
  rw [hnumber] at hvalue
  -- the text of the key ends at the colon
  have hkey : (readString? (skipSpace (stringText "x" ++ ':' :: ' ' ::
      (text.toList ++ ['\x7d'])))).map Reading.both = _ := readString?_stringText "x" _
  have hmember : (readMember? (readValue? 126) _).map Reading.both = _ :=
    readMember?_colon hkey (skipSpace_cons rfl _)
  rw [List.singleton_append] at hvalue
  rw [hvalue] at hmember
  have hmembers := readSequence?_close hmember (skipSpace_cons rfl [])
  have hread : (readValue? 127 ('\x7b' :: (stringText "x" ++ ':' :: ' ' ::
      (text.toList ++ ['\x7d'])))).map Reading.both = _ :=
    readValue?_object (skipSpace_cons rfl _)
  have hquote : skipSpace (stringText "x" ++ ':' :: ' ' :: (text.toList ++ ['\x7d'])) = '"' :: _ :=
    skipSpace_cons rfl _
  rw [readEnclosed?_of_ne hquote (by decide), hmembers] at hread
  refine read?_of_readValue? ?_ (rfl : skipSpace [] = [])
  have htoList : ("\x7b\"x\": " ++ text ++ "\x7d").toList =
      '\x7b' :: (stringText "x" ++ ':' :: ' ' :: (text.toList ++ ['\x7d'])) := by
    simp [stringText, escape]
  rw [htoList]
  exact hread

/-- A comparison of the only member of an object with a constant. -/
theorem Filter.holds_compare_constant {op : Operator} (hop : op ≠ .within) (value constant : Json) :
    (Filter.compare (.single (.field "x")) op (.single (.constant constant))).holds
      (.object [("x", value)]) = op.holds value constant := by
  have hleft : ((Selector.single (.field "x")).select (.object [("x", value)])).toList = [value] :=
    rfl
  have hright : ((Selector.single (.constant constant)).select
    (.object [("x", value)])).toList = [constant] := rfl
  rw [holds_compare_eq, selectionsCompare_eq, hleft, hright, if_neg hop, if_pos (.inl rfl)]
  simp

/-- A comparison of a number of a document with a number of a query tells whether they are the same,
if they are beside each other. -/
theorem IsNumberToken.exists_compare (h : IsNumberToken text kind) {constant decoded : Number}
    (hliteral : Literal [kind] (.number constant)) {n : Numeral} (htext : n.IsText text.toList)
    (hdecoded : n.toNumber? = some decoded) (hbeside : constant.Beside decoded) :
    ∃ document filter, Json.read? ("\x7b\"x\": " ++ text ++ "\x7d") = some document ∧
      Filter.parse (".x == " ++ text) = .ok filter ∧
      (filter.holds document = true ↔ constant = decoded) := by
  have hparse := Filter.parse_compare_literal .equal hliteral h.spells
  rw [show ".x " ++ Operator.equal.symbol ++ " " = ".x == " from rfl] at hparse
  refine ⟨_, _, Json.read?_member htext hdecoded, hparse, ?_⟩
  rw [Filter.holds_compare_constant (by decide), Operator.holds, Json.equal]
  exact hbeside.equal_iff

end Texts

/-! ## The two meanings of a text -/

/-- The number that is decoded is beside the nearest one, or at the end of the range if the nearest
one is beyond it. -/
theorem exists_beside_of_toBinary64? {n : Numeral} (h : n.HasDigits) (hsign : n.negative = false)
    {y : Binary64} (hy : n.toBinary64? = some y) :
    (∃ x, Binary64.ofDecimal? false n.decimal = some x ∧ (Number.float x).Beside (.float y)) ∨
      (Binary64.ofDecimal? false n.decimal = none ∧ 2047 * 2 ^ 52 - 5 ≤ y.rank) := by
  obtain ⟨rank, hrank, hnear⟩ := Numeral.exists_rank_toBinary64? h
  rw [hsign, Binary64.ofRank?] at hrank
  rw [Binary64.ofDecimal?_eq, Binary64.ofRatio?, Binary64.ofRank?]
  generalize Binary64.rankOfRatio n.decimal.numerator n.decimal.denominator = nearest at hnear ⊢
  split at hrank
  · rw [hrank] at hy
    obtain rfl := Option.some.inj hy
    split
    · refine .inl ⟨_, rfl, rfl, ?_⟩
      rw [abs_sub_comm]
      exact hnear
    · refine .inr ⟨rfl, ?_⟩
      have := abs_le.1 hnear
      dsimp only
      omega
  · rw [hrank] at hy
    cases hy

/-- A text that is a number token of a query and a document as a whole is a number in the document.
The query takes the same integer, or a binary64 number of the same sign that is at most five ranks
away, or none if the nearest one is out of range. A comparison of the two tells whether they are the
same. They are if the text makes up a simple decimal. -/
theorem exists_number_of_isNumberToken {text : String} {kind : Token.Kind}
    (h : IsNumberToken text kind) {value : Json} (hread : Json.read? text = some value) :
    ∃ decoded : Number, value = .number decoded ∧
      ((∃ constant : Number, Selector.parse text = .ok (.single (.constant (.number constant))) ∧
          constant.Beside decoded ∧
          ∃ document filter, Json.read? ("\x7b\"x\": " ++ text ++ "\x7d") = some document ∧
            Filter.parse (".x == " ++ text) = .ok filter ∧
            (filter.holds document = true ↔ constant = decoded)) ∨
        (kind = .float none ∧ (∀ selector, Selector.parse text ≠ .ok selector) ∧
          ∃ x : Binary64, decoded = .float x ∧ 2047 * 2 ^ 52 - 5 ≤ x.rank)) ∧
      ∀ n rest, Numeral.scan? text.toList = some (n, rest) → n.decimal.IsSimple →
        Selector.parse text = .ok (.single (.constant value)) := by
  obtain ⟨c, rest, lexeme, htext, hscan, rfl, hsource, -⟩ := h.exists_scan
  have hzero : ¬Numeral.ZeroLed text.toList := by
    intro hzero
    rw [Json.read?_of_zeroLed hzero] at hread
    cases hread
  rw [htext, ← hsource] at hzero
  obtain ⟨n, hn, hsign, hkind⟩ := Lexeme.exists_isText_of_scan hscan h.1 hzero
  rw [hsource, ← htext] at hn
  rw [Json.read?_of_isText hn] at hread
  obtain ⟨decoded, hdecoded, rfl⟩ := Option.map_eq_some_iff.1 hread
  refine ⟨decoded, rfl, ?_⟩
  rcases hkind with ⟨hreal, hinteger⟩ | ⟨hreal, hfloat⟩
  · -- an integer has the same digits on both sides
    obtain ⟨number, hliteral, hnumber⟩ := exists_literal_of_integerKind hinteger
    have hsame : n = ⟨false, n.whole, none, none⟩ := by
      obtain ⟨negative, whole, fraction, power⟩ := n
      simp_all [Numeral.isReal]
    rw [← hsame, hdecoded] at hnumber
    obtain rfl := Option.some.inj hnumber
    have hparse := h.parse_eq_ok hliteral
    have hbeside := decoded.beside_refl
    exact ⟨.inl ⟨decoded, hparse, hbeside, h.exists_compare hliteral hn hdecoded hbeside⟩,
      fun _ _ _ _ => hparse⟩
  · have hvalue := hdecoded
    rw [Numeral.toNumber?, Numeral.toInt?_of_isReal hreal] at hvalue
    obtain ⟨y, hy, rfl⟩ := Option.map_eq_some_iff.1 hvalue
    -- the nearest number is decoded if the decimal is simple
    have hsimple (m : Numeral) (last : List Char)
        (hm : Numeral.scan? text.toList = some (m, last)) (hsimple : m.decimal.IsSimple) :
        Binary64.ofDecimal? false n.decimal = some y := by
      obtain ⟨rfl, -⟩ := Prod.mk.inj (Option.some.inj (hn.scan?_eq.symm.trans hm))
      rw [← hsign, ← Numeral.toBinary64?_eq_ofDecimal? hsimple, hy]
    rcases exists_beside_of_toBinary64? hn.hasDigits hsign hy with ⟨x, hx, hbeside⟩ | ⟨hnone, hrank⟩
    · have hliteral := Literal.float x
      rw [← hx, ← hfloat] at hliteral
      have hparse := h.parse_eq_ok hliteral
      refine ⟨.inl ⟨.float x, hparse, hbeside, h.exists_compare hliteral hn hdecoded hbeside⟩, ?_⟩
      intro m last hm hd
      obtain rfl := Option.some.inj (hx.symm.trans (hsimple m last hm hd))
      exact hparse
    · rw [hnone] at hfloat
      refine ⟨.inr ⟨hfloat, IsNumberToken.parse_ne_ok (hfloat ▸ h), y, rfl, hrank⟩, ?_⟩
      intro m last hm hd
      cases hnone.symm.trans (hsimple m last hm hd)

/-- A half means the same in a query and in a document. -/
theorem exists_number_of_isNumberToken_half :
    ∃ half : Binary64, IsNumberToken "0.5" (.float (some half)) ∧
      Json.read? "0.5" = some (.number (.float half)) ∧
      Selector.parse "0.5" = .ok (.single (.constant (.number (.float half)))) ∧
      ∃ document filter, Json.read? "\x7b\"x\": 0.5\x7d" = some document ∧
        Filter.parse ".x == 0.5" = .ok filter ∧ filter.holds document = true := by
  obtain ⟨half, hnearest, hnumber⟩ : ∃ half, Binary64.ofDecimal? false ⟨5, -1⟩ = some half ∧
      Numeral.toNumber? ⟨false, ['0'], some ['5'], none⟩ = some (.float half) :=
    ⟨⟨false, 1022 * 2 ^ 52, by decide⟩, by decide +kernel, by decide +kernel⟩
  have htoken : IsNumberToken "0.5" (.float (Binary64.ofDecimal? false ⟨5, -1⟩)) :=
    ⟨rfl, _, rfl, rfl⟩
  rw [hnearest] at htoken
  have htext : Numeral.IsText ⟨false, ['0'], some ['5'], none⟩ "0.5".toList :=
    Numeral.isText_iff.2 rfl
  have hread := Json.read?_of_isText htext
  rw [hnumber] at hread
  obtain ⟨decoded, hdecoded, hmeaning, hsimple⟩ := exists_number_of_isNumberToken htoken hread
  have hparse := hsimple _ _ htext.scan?_eq (by unfold Decimal.IsSimple; decide)
  obtain rfl := Json.number.inj hdecoded
  rcases hmeaning with
    ⟨constant, hconstant, -, document, filter, hdocument, hfilter, hholds⟩ | hnone
  · -- the constant is the one that a simple decimal is parsed as
    obtain rfl : .float half = constant := by
      simpa [Selector.single] using hparse.symm.trans hconstant
    exact ⟨half, htoken, hread, hparse, document, filter, hdocument, hfilter, hholds.2 rfl⟩
  · cases hnone.1

/-- The number of a query may differ from the number that a document has for the same text, so that
they do not compare as equal, and it may be out of range where a document has one. -/
theorem exists_isNumberToken_ne :
    (∃ decoded constant : Binary64, IsNumberToken "1.1e24" (.float (some constant)) ∧
        Json.read? "1.1e24" = some (.number (.float decoded)) ∧
        Selector.parse "1.1e24" = .ok (.single (.constant (.number (.float constant)))) ∧
        constant ≠ decoded ∧
        ∃ document filter, Json.read? "\x7b\"x\": 1.1e24\x7d" = some document ∧
          Filter.parse ".x == 1.1e24" = .ok filter ∧ filter.holds document = false) ∧
      IsNumberToken "1.79769313486231581e308" (.float none) ∧
      (∃ decoded, Json.read? "1.79769313486231581e308" = some (.number decoded)) ∧
      ∀ selector, Selector.parse "1.79769313486231581e308" ≠ .ok selector := by
  constructor
  · obtain ⟨x, y, hnearest, hnumber, hne, hbeside⟩ : ∃ x y : Binary64,
        Binary64.ofDecimal? false ⟨11, 23⟩ = some x ∧
        Numeral.toNumber? ⟨false, ['1'], some ['1'], some (false, ['2', '4'])⟩ = some (.float y) ∧
        x ≠ y ∧ (Number.float x).Beside (.float y) :=
      ⟨⟨false, 4966658828391532307, by decide⟩, ⟨false, 4966658828391532306, by decide⟩,
        by decide +kernel, by decide +kernel, by decide, rfl, by decide⟩
    have htoken : IsNumberToken "1.1e24" (.float (Binary64.ofDecimal? false ⟨11, 23⟩)) :=
      ⟨rfl, _, rfl, rfl⟩
    rw [hnearest] at htoken
    have htext : Numeral.IsText ⟨false, ['1'], some ['1'], some (false, ['2', '4'])⟩
        "1.1e24".toList := Numeral.isText_iff.2 rfl
    have hread := Json.read?_of_isText htext
    rw [hnumber] at hread
    obtain ⟨document, filter, hdocument, hfilter, hholds⟩ :=
      htoken.exists_compare (.float x) htext hnumber hbeside
    have hdiffers : ¬filter.holds document = true := fun h => hne (Number.float.inj (hholds.1 h))
    exact ⟨y, x, htoken, hread, htoken.parse_eq_ok (.float x), hne, document, filter, hdocument,
      hfilter, Bool.eq_false_iff.2 hdiffers⟩
  · obtain ⟨y, hnumber⟩ : ∃ y, Numeral.toNumber? ⟨false, ['1'], some "79769313486231581".toList,
        some (false, ['3', '0', '8'])⟩ = some (.float y) :=
      ⟨⟨false, 2047 * 2 ^ 52 - 1, by decide⟩, by decide +kernel⟩
    have hnearest : Binary64.ofDecimal? false ⟨179769313486231581, 291⟩ = none := by
      decide +kernel
    have htoken : IsNumberToken "1.79769313486231581e308"
        (.float (Binary64.ofDecimal? false ⟨179769313486231581, 291⟩)) :=
      ⟨rfl, _, rfl, rfl⟩
    rw [hnearest] at htoken
    have htext : Numeral.IsText ⟨false, ['1'], some "79769313486231581".toList,
        some (false, ['3', '0', '8'])⟩ "1.79769313486231581e308".toList :=
      Numeral.isText_iff.2 rfl
    have hread := Json.read?_of_isText htext
    rw [hnumber] at hread
    exact ⟨htoken, ⟨_, hread⟩, htoken.parse_ne_ok⟩

end DocQuery
