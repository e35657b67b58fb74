import DocQuery.Grammar.Query
import DocQuery.Proofs.Grammar.Spelling

/-!
# The grammar of the query language

The grammar is given by inductive relations between a sequence of token kinds and what it stands
for, one constructor for each alternative. They say nothing about how a text is read: there is no
token at hand and no flag for white space. White space stands where a relation names it and
nowhere else.

* `Step`, `Bracket`, `Chain`: the parts of a selector.
* `Path`, `PathList`, `Predicate`, `Statement`: what the four entry points of the language accept.
* `Written`: a text that consists of white space and a derivation.
-/

namespace DocQuery

namespace Grammar

namespace Derivation

/-- White space, which may be absent. Neighbouring white space is a single token of a text. -/
def Blank (kinds : List Token.Kind) : Prop := ∀ kind ∈ kinds, kind = .separator

/-- A derivation and the white space after it. -/
inductive Spaced {α : Type} (content : List Token.Kind → α → Prop) : List Token.Kind → α → Prop
  | intro {result : α} {ks b : List Token.Kind} (h : content ks result) (hb : Blank b) :
      Spaced content (ks ++ b) result

/-- A bound of a slice, which may be absent. -/
inductive Bound : List Token.Kind → Option Int64 → Prop
  | absent : Bound [] none
  | present (value : Int64) : Bound [.integer value] (some value)

/-- What stands in a bracket, without the white space around it. -/
inductive Content : List Token.Kind → Segment → Prop
  | name (name : String) : Content [.string name] (.field name)
  | position (value : Int64) : Content [.integer value] (.index value)
  | slice {first last : Option Int64} {ks b ls : List Token.Kind}
      (hfirst : Spaced Bound ks first) (hb : Blank b) (hlast : Bound ls last) :
      Content (ks ++ [.colon] ++ b ++ ls) (.slice first last)
  | whole : Content [] (.slice none none)

/-- A bracket with what stands in it. -/
inductive Bracket : List Token.Kind → Segment → Prop
  | intro {segment : Segment} {b ks : List Token.Kind} (hb : Blank b)
      (hcontent : Spaced Content ks segment) :
      Bracket ([.bracketOpen] ++ b ++ ks ++ [.bracketClose]) segment

/-- A step: a name after a dot, a bracket, or a name or a bracket after two dots. -/
inductive Step : List Token.Kind → List Segment → Prop
  | field (name : String) : Step [.dot, .identifier name] [.field name]
  | bracket {segment : Segment} {ks : List Token.Kind} (h : Bracket ks segment) :
      Step ks [segment]
  | descentField (name : String) : Step [.dotDot, .identifier name] [.descent, .field name]
  | descentBracket {segment : Segment} {ks : List Token.Kind} (h : Bracket ks segment) :
      Step (.dotDot :: ks) [.descent, segment]

/-- Any number of steps, with nothing between them. -/
inductive Chain : List Token.Kind → List Segment → Prop
  | nil : Chain [] []
  | cons {segments others : List Segment} {ks ls : List Token.Kind}
      (hhead : Step ks segments) (htail : Chain ls others) : Chain (ks ++ ls) (segments ++ others)

/-- A literal. The lexer gives an integer token to integers below `2 ^ 64` only. -/
inductive Literal : List Token.Kind → Json → Prop
  | string (value : String) : Literal [.string value] (.string value)
  | integer (value : Int64) : Literal [.integer value] (.number (.ofInt64 value))
  | unsigned (value : UInt64) : Literal [.unsigned value] (.number (.ofUInt64 value))
  | float (value : Binary64) : Literal [.float (some value)] (.number (.float value))
  | true : Literal [.identifier "true"] (.bool Bool.true)
  | false : Literal [.identifier "false"] (.bool Bool.false)
  | null : Literal [.identifier "null"] .null

/-- A selector, without the white space after it. -/
inductive Path : List Token.Kind → Selector → Prop
  | root {segments : List Segment} {ks : List Token.Kind} (h : Chain ks segments) :
      Path (.root :: ks) ⟨segments⟩
  | named {name : String} {segments : List Segment} {ks : List Token.Kind}
      (hname : name ≠ "true" ∧ name ≠ "false" ∧ name ≠ "null") (h : Chain ks segments) :
      Path (.identifier name :: ks) ⟨.field name :: segments⟩
  | steps {segments others : List Segment} {ks ls : List Token.Kind}
      (hhead : Step ks segments) (htail : Chain ls others) : Path (ks ++ ls) ⟨segments ++ others⟩
  | literal {value : Json} {ks : List Token.Kind} (h : Literal ks value) :
      Path ks (.single (.constant value))

/-- One selector or more, separated by commas, each with the white space after it. -/
inductive PathList : List Token.Kind → List Selector → Prop
  | single {selector : Selector} {ks : List Token.Kind} (h : Spaced Path ks selector) :
      PathList ks [selector]
  | cons {selector : Selector} {others : List Selector} {ks b ls : List Token.Kind}
      (hhead : Spaced Path ks selector) (hb : Blank b) (htail : PathList ls others) :
      PathList (ks ++ [.comma] ++ b ++ ls) (selector :: others)

/-- An operator between two selectors: one of the six symbols, or one of the two words in any
case. -/
inductive Infix : Token.Kind → Operator → Prop
  | symbol (op : Operator) : Infix (.operator op) op
  | within {word : String} (h : isKeyword "in" word = true) : Infix (.identifier word) .within
  | like {word : String} (h : isKeyword "like" word = true) : Infix (.identifier word) .like

/-- A filter: a selector alone, which holds always if it is the identity and otherwise where it
matches something, or two selectors with an operator between them. -/
inductive Predicate : List Token.Kind → Filter → Prop
  | always {selector : Selector} {ks : List Token.Kind} (h : Spaced Path ks selector)
      (hid : selector = .identity) : Predicate ks .always
  | exists {selector : Selector} {ks : List Token.Kind} (h : Spaced Path ks selector)
      (hid : selector ≠ .identity) : Predicate ks (.exists selector)
  | compare {lhs rhs : Selector} {op : Operator} {ks b ls : List Token.Kind} {kind : Token.Kind}
      (hlhs : Spaced Path ks lhs) (hop : Infix kind op) (hb : Blank b) (hrhs : Spaced Path ls rhs) :
      Predicate (ks ++ [kind] ++ b ++ ls) (.compare lhs op rhs)

/-- A clause that may be absent: a keyword in any case, white space and the content. -/
inductive Clause {α : Type} (keyword : String) (content : List Token.Kind → α → Prop)
    (default : α) : List Token.Kind → α → Prop
  | absent : Clause keyword content default [] default
  | present {word : String} {result : α} {b ks : List Token.Kind}
      (hword : isKeyword keyword word = true) (hb : Blank b) (h : content ks result) :
      Clause keyword content default ([.identifier word] ++ b ++ ks) result

/-- What follows the first keyword of a query. -/
inductive Clauses : List Token.Kind → Query → Prop
  | intro {select : List Selector} {source : Selector} {filter : Filter}
      {ks ls ms : List Token.Kind} (hselect : PathList ks select)
      (hsource : Clause "from" (Spaced Path) .identity ls source)
      (hfilter : Clause "where" Predicate .always ms filter) :
      Clauses (ks ++ ls ++ ms) ⟨select, source, filter⟩

/-- A query: nothing at all, or the clauses after their first keyword. -/
def Statement : List Token.Kind → Query → Prop := Clause "select" Clauses .root

/-- The text consists of white space and a derivation of the result. -/
def Written {α : Type} (content : List Token.Kind → α → Prop) (text : String) (result : α) :
    Prop :=
  ∃ b ks, Blank b ∧ content ks result ∧ Spells text.toList (b ++ ks) []

/-! ## White space -/

/-- No white space is white space. -/
theorem blank_nil : Blank [] := by
  intro kind hkind
  cases hkind

/-- White space in front of white space is white space. -/
theorem blank_cons {b : List Token.Kind} (hb : Blank b) : Blank (.separator :: b) := by
  intro kind hkind
  rcases List.mem_cons.1 hkind with rfl | hkind
  · rfl
  · exact hb kind hkind

/-- The white space in front of a text is a token, or there is none. -/
theorem exists_blank (text : List Char) :
    ∃ b, Blank b ∧ Spells text b (text.dropWhile isBlank) := by
  cases text with
  | nil => exact ⟨[], blank_nil, .nil []⟩
  | cons c rest =>
    by_cases hblank : isBlank c = true
    · rw [List.dropWhile_cons_of_pos hblank]
      exact ⟨[.separator], blank_cons blank_nil,
        .cons_of_eq (Lexeme.scan_of_isBlank rest hblank) (.nil _)⟩
    · rw [List.dropWhile_cons_of_neg hblank]
      exact ⟨[], blank_nil, .nil _⟩

/-- The kinds that are seen under a flag for white space: all of them, or all from the first one
that is no separator. -/
def seen : Bool → List Token.Kind → List Token.Kind
  | true, kinds => kinds.dropWhile (· == .separator)
  | false, kinds => kinds

/-- Where white space is skipped, it is not seen in front. -/
theorem seen_blank_append {b : List Token.Kind} (hb : Blank b) (kinds : List Token.Kind) :
    seen true (b ++ kinds) = seen true kinds := by
  induction b with
  | nil => rfl
  | cons kind b ih =>
    obtain rfl := hb kind (by simp)
    rw [List.cons_append, ← ih fun kind hkind => hb kind (List.mem_cons_of_mem _ hkind)]
    rfl

/-- Nothing but separators is left out. -/
theorem seen_cons_of_ne {kind : Token.Kind} (h : kind ≠ .separator) (kinds : List Token.Kind) :
    seen true (kind :: kinds) = kind :: kinds := by
  rw [seen, List.dropWhile_cons_of_neg (by simpa using h)]

/-! ## How derivations begin -/

/-- The kinds that begin a step. -/
def BeginsStep : Token.Kind → Prop
  | .dot | .dotDot | .bracketOpen => True
  | _ => False

/-- A bracket begins with an opening bracket. -/
theorem Bracket.exists_cons {ks : List Token.Kind} {segment : Segment} (h : Bracket ks segment) :
    ∃ ls, ks = .bracketOpen :: ls := by
  cases h with
  | intro => exact ⟨_, rfl⟩

/-- A step begins with a dot, with two dots or with a bracket. -/
theorem Step.exists_cons {ks : List Token.Kind} {segments : List Segment} (h : Step ks segments) :
    ∃ kind ls, ks = kind :: ls ∧ BeginsStep kind := by
  cases h with
  | field => exact ⟨_, _, rfl, trivial⟩
  | bracket h =>
    obtain ⟨ls, rfl⟩ := h.exists_cons
    exact ⟨_, _, rfl, trivial⟩
  | descentField => exact ⟨_, _, rfl, trivial⟩
  | descentBracket => exact ⟨_, _, rfl, trivial⟩

/-- A selector begins with a token other than white space. -/
theorem Path.exists_cons {ks : List Token.Kind} {selector : Selector} (h : Path ks selector) :
    ∃ kind ls, ks = kind :: ls ∧ kind ≠ .separator := by
  cases h with
  | root => exact ⟨_, _, rfl, by simp⟩
  | named => exact ⟨_, _, rfl, by simp⟩
  | steps hhead =>
    obtain ⟨kind, ls, rfl, hkind⟩ := hhead.exists_cons
    refine ⟨kind, _, rfl, ?_⟩
    rintro rfl
    exact hkind
  | literal h => cases h <;> exact ⟨_, _, rfl, by simp⟩

/-- White space after a derivation does not change how it begins. -/
theorem Spaced.exists_cons {α : Type} {content : List Token.Kind → α → Prop}
    {ks : List Token.Kind} {result : α}
    (hcontent : ∀ ks, content ks result → ∃ kind ls, ks = kind :: ls ∧ kind ≠ .separator)
    (h : Spaced content ks result) : ∃ kind ls, ks = kind :: ls ∧ kind ≠ .separator := by
  cases h with
  | intro h =>
    obtain ⟨kind, ls, rfl, hkind⟩ := hcontent _ h
    exact ⟨kind, _, rfl, hkind⟩

/-- A list of selectors begins with a token other than white space. -/
theorem PathList.exists_cons {ks : List Token.Kind} {selectors : List Selector}
    (h : PathList ks selectors) : ∃ kind ls, ks = kind :: ls ∧ kind ≠ .separator := by
  cases h with
  | single h => exact h.exists_cons fun _ => Path.exists_cons
  | cons hhead =>
    obtain ⟨kind, ls, rfl, hkind⟩ := hhead.exists_cons fun _ => Path.exists_cons
    exact ⟨kind, _, rfl, hkind⟩

/-- A filter begins with a token other than white space. -/
theorem Predicate.exists_cons {ks : List Token.Kind} {filter : Filter} (h : Predicate ks filter) :
    ∃ kind ls, ks = kind :: ls ∧ kind ≠ .separator := by
  cases h with
  | always h => exact h.exists_cons fun _ => Path.exists_cons
  | «exists» h => exact h.exists_cons fun _ => Path.exists_cons
  | compare hlhs =>
    obtain ⟨kind, ls, rfl, hkind⟩ := hlhs.exists_cons fun _ => Path.exists_cons
    exact ⟨kind, _, rfl, hkind⟩

end Derivation

end Grammar

end DocQuery
