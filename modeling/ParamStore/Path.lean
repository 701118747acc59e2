import ParamStore.Text.Blank
import ParamStore.Text.Pieces
import ParamStore.Table.Entries

/-!
# Dotted paths

A path is a non-empty list of tokens, written with dots between them.
Reading drops empty segments and the blanks around a segment, so
`..shell. prompt .` and `shell.prompt` are the same path; a blank inside a
segment is refused.

Every token of a path is non-empty and holds no dot and no blank. The type
carries this, so the dotted text of a path determines it.
-/

namespace ParamStore

open Text

/-- A non-empty text without dots and blanks. -/
def IsToken (t : String) : Prop :=
  t ≠ "" ∧ ∀ c ∈ t.toList, c ≠ '.' ∧ isBlank c = false

instance (t : String) : Decidable (IsToken t) :=
  inferInstanceAs (Decidable (_ ∧ _))

inductive PathFault where
  | noToken
  | blankInside (token : String)
  deriving Repr, DecidableEq

namespace PathFault

def message : PathFault → String
  | noToken => "path has no token"
  | blankInside token => "token '" ++ token ++ "' contains whitespace"

end PathFault

/-- The tokens of a list of segments: each is trimmed, empty ones are
dropped, and the first with a blank inside is refused. -/
def tokensOf : List (List Char) → Except PathFault (List String)
  | [] => .ok []
  | s :: ss =>
    if trim s = [] then tokensOf ss
    else if (trim s).any isBlank then .error (.blankInside (String.ofList (trim s)))
    else do return String.ofList (trim s) :: (← tokensOf ss)

/-- The tokens of a dotted text, which may have none. -/
def readTokens (text : String) : Except PathFault (List String) :=
  tokensOf (pieces '.' text.toList)

theorem isToken_of_tokensOf {ss : List (List Char)} {ts : List String}
    (hdot : ∀ s ∈ ss, '.' ∉ s) (h : tokensOf ss = .ok ts) : ∀ t ∈ ts, IsToken t := by
  induction ss generalizing ts with
  | nil => cases h; simp
  | cons s ss ih =>
    have hss : ∀ s ∈ ss, '.' ∉ s := fun s hs => hdot s (List.mem_cons_of_mem _ hs)
    unfold tokensOf at h
    split at h
    · exact ih hss h
    · next hne =>
      split at h
      · cases h
      · next hblank =>
        cases hts : tokensOf ss with
        | error f => simp [hts, bind, Except.bind] at h
        | ok us =>
          simp only [hts, bind, Except.bind, pure, Except.pure, Except.ok.injEq] at h
          subst h
          intro t ht
          rcases List.mem_cons.1 ht with rfl | ht
          · refine ⟨fun he => hne ?_, fun c hc => ?_⟩
            · simpa using congrArg String.toList he
            · rw [String.toList_ofList] at hc
              refine ⟨fun he => ?_, ?_⟩
              · exact hdot s List.mem_cons_self (he ▸ mem_of_mem_trim hc)
              · simp only [List.any_eq_true, not_exists, not_and, Bool.not_eq_true] at hblank
                exact hblank c hc
          · exact ih hss hts t ht

theorem isToken_of_readTokens {text : String} {ts : List String}
    (h : readTokens text = .ok ts) : ∀ t ∈ ts, IsToken t :=
  isToken_of_tokensOf (fun _ hs => not_mem_of_mem_pieces hs) h

/-- The address of an entry. -/
structure Path where
  tokens : List String
  tokens_ne_nil : tokens ≠ []
  isToken : ∀ t ∈ tokens, IsToken t
  deriving DecidableEq

namespace Path

def read (text : String) : Except PathFault Path :=
  match h : readTokens text with
  | .error fault => .error fault
  | .ok [] => .error .noToken
  | .ok (t :: ts) => .ok ⟨t :: ts, List.cons_ne_nil t ts, isToken_of_readTokens h⟩

/-- The tokens with dots between them. -/
def dotted (p : Path) : String := ".".intercalate p.tokens

/-- Paths are ordered by their tokens, not by their dotted texts. -/
instance : LT Path := ⟨fun p q => p.tokens < q.tokens⟩

instance : DecidableLT Path := fun p q =>
  inferInstanceAs (Decidable (p.tokens < q.tokens))

end Path

end ParamStore
