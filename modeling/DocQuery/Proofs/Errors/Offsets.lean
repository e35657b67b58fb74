import DocQuery.Proofs.Errors.Viability
import DocQuery.Proofs.Grammar.Acceptance

/-!
# Errors are at the first place that does not fit

The offset of an error is the end of a prefix of the text, so it is no more than the length of the
text in bytes, and it does not lie inside a character. This prefix is made of tokens, and it can be
completed to a text that is accepted. So nothing before the offset is wrong.

* `exists_prefix_of_parse_eq_error`: the statement for all four entry points.
-/

namespace DocQuery

open Grammar Grammar.Derivation

/-- A byte offset is no more than the length of a text and lies at a boundary of its characters, and
the text up to there is the beginning of a text that is accepted. -/
def ViablePrefix {α : Type} (parse : String → Except SyntaxError α) (text : String)
    (position : Nat) : Prop :=
  ∃ read last suffix : String, text = read ++ last ∧ read.utf8ByteSize = position ∧
    ∃ result, parse (read ++ suffix) = .ok result

namespace Grammar

variable {α : Type} {content : Parse α} {derivation : List Token.Kind → α → Prop}
  {follows : List Token.Kind → Prop} {text : String} {error : SyntaxError}

/-- Where no token begins at the start of a text, its white space has been read. -/
theorem exists_reached_of_ofString (h : Cursor.ofString text = .error error) :
    ∃ b, Blank b ∧ Cursor.Reached text.toList b error.position := by
  obtain ⟨b, hb, -, hspells, hoffset⟩ := Cursor.exists_skipBlanks (Lexer.ofString text)
  obtain ⟨fault, lexer, hnext, rfl⟩ := Parse.exists_next_of_ofString h
  refine ⟨b, hb, _, hspells, ?_⟩
  rw [SyntaxError.position, (Lexer.next_eq_error hnext).2.1, hoffset]
  exact Nat.zero_add _

/-- A whole text that is not accepted is accepted up to the error, with a completion behind it. -/
theorem exists_completion_of_parseAll (hsound : Sound true content derivation)
    (hviable : Viable true content derivation)
    (hstart : ∃ ms result, derivation ms result ∧ Completes [] ms)
    (h : parseAll content text = .error error) :
    ∃ b ks ms result, Blank b ∧ derivation (ks ++ ms) result ∧ Completes ks ms ∧
      Cursor.Reached text.toList (b ++ ks) error.position := by
  rw [parseAll] at h
  split at h
  · -- no token has been read, so all that is accepted is missing
    rename_i hcursor
    cases h
    obtain ⟨b, hb, hreached⟩ := exists_reached_of_ofString hcursor
    obtain ⟨ms, result, hresult, hcompletes⟩ := hstart
    exact ⟨b, [], ms, result, hb, hresult, hcompletes, by rwa [List.append_nil]⟩
  · rename_i cursor hcursor
    obtain ⟨b, hb, hbehind⟩ := Cursor.exists_behind_ofString hcursor
    have hskips : cursor.lexer.skips = true := by
      rw [Lexer.skips, (Cursor.ofString_eq_ok hcursor).1]
      rfl
    rcases Parse.bind_eq_error (Prod.ext h rfl) with ⟨mid, hcontent⟩ | ⟨result, mid, hcontent, hend⟩
    · obtain ⟨ks, ms, result, hresult, hcompletes, hhalts⟩ := hviable hskips hcontent
      exact ⟨b, ks, ms, result, hb, hresult, hcompletes, hhalts hbehind⟩
    · -- the text should have ended behind the derivation, so nothing is missing
      obtain ⟨ks, hks, hmoves⟩ := hsound hskips hcontent
      have hhalts : Halts mid [] error := by
        rcases Parse.bind_eq_error hend with ⟨last, hend⟩ | ⟨_, _, -, hpure⟩
        · rw [expectEnd] at hend
          obtain ⟨found, -, hend⟩ := Parse.kind_bind_eq hend
          split at hend
          · cases hend
          · exact .fail hend
        · cases hpure
      have hreached := hhalts.of_moves hmoves hbehind
      rw [List.append_nil] at hreached
      exact ⟨b, ks, [], result, hb, by rwa [List.append_nil], .nil ks, hreached⟩

/-- The text up to an error is the beginning of a text that is accepted. -/
theorem viablePrefix_of_parseAll (hsound : Sound true content derivation)
    (hcomplete : Complete true content derivation follows) (hend : follows [])
    (hviable : Viable true content derivation)
    (hstart : ∃ ms result, derivation ms result ∧ Completes [] ms)
    (h : parseAll content text = .error error) :
    ViablePrefix (parseAll content) text error.position := by
  obtain ⟨b, ks, ms, result, hb, hresult, hcompletes, last, hspells, hposition⟩ :=
    exists_completion_of_parseAll hsound hviable hstart h
  obtain ⟨read, suffix, htext, hall⟩ := hcompletes hspells
  -- the completion is written behind what has been read, and the whole is derived and accepted
  refine ⟨String.ofList read, String.ofList last, String.ofList suffix, ?_, ?_, result, ?_⟩
  · rw [← String.ofList_append, ← htext, String.ofList_toList]
  · rw [htext, utf8Length_append] at hposition
    rw [utf8ByteSize_ofList]
    omega
  · refine parseAll_of_written hcomplete hend ⟨b, ks ++ ms, hb, hresult, ?_⟩
    rw [← String.ofList_append, String.toList_ofList, ← List.append_assoc]
    exact hall

end Grammar

/-- Whichever entry point fails, the offset of its error is the end of a prefix of the text, and
this prefix is the beginning of a text that the entry point accepts. -/
theorem exists_prefix_of_parse_eq_error {text : String} {error : SyntaxError} :
    (Query.parse text = .error error → ViablePrefix Query.parse text error.position) ∧
      (Selector.parse text = .error error → ViablePrefix Selector.parse text error.position) ∧
      (Selector.parseList text = .error error →
        ViablePrefix Selector.parseList text error.position) ∧
      (Filter.parse text = .error error → ViablePrefix Filter.parse text error.position) := by
  have hnil : Complete.EndsChain [] ∧ Complete.EndsList [] := by
    simp [Complete.EndsChain, Complete.EndsList]
  refine ⟨fun h => ?_, fun h => ?_, fun h => ?_, fun h => ?_⟩
  · exact viablePrefix_of_parseAll Sound.query Complete.query rfl Viable.query
      ⟨[], _, .absent, .nil []⟩ h
  · exact viablePrefix_of_parseAll Sound.selector Complete.selector hnil.1 Viable.selector
      ⟨_, _, Viable.spaced_root, .root []⟩ h
  · exact viablePrefix_of_parseAll Sound.selectors Complete.selectors hnil.2 Viable.selectors
      ⟨_, _, .single Viable.spaced_root, .root []⟩ h
  · exact viablePrefix_of_parseAll Sound.filter Complete.filter rfl Viable.filter
      ⟨_, _, .always Viable.spaced_root rfl, .root []⟩ h

/-- The text should have ended behind a constant, which takes four bytes. -/
theorem exists_prefix_of_parse_eq_error_constant :
    Filter.parse "'é'1" = .error (.parse 4 (.unexpected (.integer 1))) ∧
      ViablePrefix Filter.parse "'é'1" 4 := by
  have hparse : Filter.parse "'é'1" = .error (.parse 4 (.unexpected (.integer 1))) := rfl
  exact ⟨hparse, exists_prefix_of_parse_eq_error.2.2.2 hparse⟩

end DocQuery
