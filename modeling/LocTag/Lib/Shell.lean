import Mathlib.Algebra.GroupWithZero.Nat
import Mathlib.Data.List.Basic

/-!
# The tokens of a shell command

Token recognition of a POSIX shell, with the removal of the quotes, over any alphabet whose
characters have a `CharClass`.  A text is read character by character (`step`); `tokenise` gives its
tokens, `none` for a text whose tokens are not known: one with a NUL, with an expansion (`$` or a
backquote), or with a quote left open.

`tokenise_word_iff` and `tokenise_quoted_iff` say for which texts a command with the text put into it
has the tokens of the command with the text as a part of one word: `size`, the number of characters
in words, grows by one with each character of such a text and by less with one of the others.
-/

namespace LocTag.Lib.Shell

/-! ### Characters and tokens -/

/-- The characters operators are made of. -/
inductive OpChar where
  | semi
  | amp
  | bar
  | less
  | great
  | lparen
  | rparen
  | dash
  deriving DecidableEq

/-- What a character is to the shell; `expansion` are `$` and the backquote. -/
inductive CharClass where
  | nul
  | blank
  | newline
  | dquote
  | squote
  | backslash
  | expansion
  | operator (o : OpChar)
  | hash
  | digit
  | dash
  | ordinary
  deriving DecidableEq

/-- The operators of more than one character. -/
def operators : List (List OpChar) :=
  [[.amp, .amp], [.bar, .bar], [.semi, .semi], [.less, .less], [.great, .great], [.less, .amp],
    [.great, .amp], [.less, .great], [.great, .bar], [.less, .less, .dash]]

def CharClass.opChar : CharClass → Option OpChar
  | operator o => some o
  | dash => some .dash
  | _ => none

/-- A character that is itself inside a word. -/
def CharClass.Plain : CharClass → Bool
  | hash | digit | dash | ordinary => true
  | _ => false

/-- A character that is itself in double quotes, where no backslash precedes it. -/
def CharClass.Quotable : CharClass → Bool
  | nul | expansion | dquote | backslash => false
  | _ => true

/-- A character that no quote is made of, and nothing unknown. -/
def CharClass.Unquoting : CharClass → Bool
  | blank | newline | operator _ | hash | digit | dash | ordinary => true
  | _ => false

/-- The classes of the ASCII characters. -/
def charClass (c : Char) : CharClass :=
  match c with
  | '\x00' => .nul
  | ' ' | '\t' => .blank
  | '\n' => .newline
  | '\x22' => .dquote
  | '\x27' => .squote
  | '\\' => .backslash
  | '$' | '\x60' => .expansion
  | ';' => .operator .semi
  | '&' => .operator .amp
  | '|' => .operator .bar
  | '<' => .operator .less
  | '>' => .operator .great
  | '(' => .operator .lparen
  | ')' => .operator .rparen
  | '#' => .hash
  | '-' => .dash
  | c => if c.isDigit then .digit else .ordinary

inductive Token (α : Type) where
  | word (w : List α)
  | ioNumber (w : List α)
  | op (o : List OpChar)
  | newline
  deriving DecidableEq

/-! ### Token recognition -/

/-- Where the reader is: the modes of quoting, in a comment, or inside an operator.
`dquotedEscaped b` comes after the backslash `b` in double quotes. -/
inductive Mode (α : Type) where
  | plain
  | escaped
  | dquoted
  | dquotedEscaped (b : α)
  | squoted
  | comment
  | operator (o : List OpChar)
  deriving DecidableEq

/-- The tokens read, the word being read, and whether part of it was quoted. -/
structure State (α : Type) where
  mode : Mode α := .plain
  word : Option (List α) := none
  quoted : Bool := false
  tokens : List (Token α) := []
  deriving DecidableEq

namespace State

variable {α : Type}

/-- One more character of the word. -/
def put (σ : State α) (a : α) : State α := { σ with word := some (σ.word.getD [] ++ [a]) }

/-- A quote opens; it makes a word, if an empty one. -/
def openQuote (σ : State α) (m : Mode α) : State α :=
  { σ with mode := m, word := some (σ.word.getD []), quoted := true }

/-- The word ends. -/
def endWord (σ : State α) : State α :=
  match σ.word with
  | none => σ
  | some w => { σ with word := none, quoted := false, tokens := σ.tokens ++ [.word w] }

def emit (σ : State α) (t : Token α) : State α := { σ with tokens := σ.tokens ++ [t] }

/-- The word ends before an operator: digits before a redirection are its number. -/
def endBefore (cls : α → CharClass) (o : OpChar) (σ : State α) : State α :=
  match σ.word with
  | none => σ
  | some w =>
    if (o = .less ∨ o = .great) ∧ σ.quoted = false ∧ ∀ a ∈ w, cls a = .digit then
      { σ with word := none, quoted := false, tokens := σ.tokens ++ [.ioNumber w] }
    else σ.endWord

/-- The tokens at the end of the text. -/
def finish (σ : State α) : Option (List (Token α)) :=
  match σ.mode with
  | .plain | .comment => some σ.endWord.tokens
  | .operator o => some (σ.tokens ++ [.op o])
  | _ => none

end State

section Tokenise

variable {α : Type} (cls : α → CharClass)

/-- A character outside quotes. -/
def plainStep (σ : State α) (a : α) : Option (State α) :=
  match cls a with
  | .nul | .expansion => none
  | .blank => some σ.endWord
  | .newline => some (σ.endWord.emit .newline)
  | .dquote => some (σ.openQuote .dquoted)
  | .squote => some (σ.openQuote .squoted)
  | .backslash => some { σ with mode := .escaped }
  | .operator o => some { σ.endBefore cls o with mode := .operator [o] }
  | .hash => if σ.word.isNone then some { σ with mode := .comment } else some (σ.put a)
  | .digit | .dash | .ordinary => some (σ.put a)

/-- A character in double quotes. -/
def dquotedStep (σ : State α) (a : α) : Option (State α) :=
  match cls a with
  | .nul | .expansion => none
  | .dquote => some { σ with mode := .plain }
  | .backslash => some { σ with mode := .dquotedEscaped a }
  | _ => some (σ.put a)

/-- A character after the backslash `b` in double quotes. -/
def dquotedEscapedStep (σ : State α) (b a : α) : Option (State α) :=
  match cls a with
  | .nul => none
  | .newline => some { σ with mode := .dquoted }
  | .expansion | .dquote | .backslash => some { σ.put a with mode := .dquoted }
  | _ => some { (σ.put b).put a with mode := .dquoted }

/-- One character. -/
def step (σ : State α) (a : α) : Option (State α) :=
  match σ.mode with
  | .plain => plainStep cls σ a
  | .escaped => match cls a with
    | .nul => none
    | .newline => some { σ with mode := .plain }
    | _ => some { σ.put a with mode := .plain, quoted := true }
  | .dquoted => dquotedStep cls σ a
  | .dquotedEscaped b => dquotedEscapedStep cls σ b a
  | .squoted => match cls a with
    | .nul => none
    | .squote => some { σ with mode := .plain }
    | _ => some (σ.put a)
  | .comment => match cls a with
    | .nul => none
    | .newline => some { σ.emit .newline with mode := .plain }
    | _ => some σ
  | .operator o => match (cls a).opChar.filter fun c => o ++ [c] ∈ operators with
    | some c => some { σ with mode := .operator (o ++ [c]) }
    | none => plainStep cls { σ.emit (.op o) with mode := .plain } a

def run (σ : State α) (s : List α) : Option (State α) := s.foldlM (step cls) σ

/-- The tokens of a text read from `σ` on. -/
def tokensFrom (σ : State α) (s : List α) : Option (List (Token α)) := (run cls σ s).bind State.finish

/-- **The tokens of a text.** -/
def tokenise (s : List α) : Option (List (Token α)) := tokensFrom cls {} s

end Tokenise

/-! ### Runs -/

section Runs

variable {α : Type} {cls : α → CharClass} {σ σ' : State α} {s t : List α}

@[simp] theorem run_nil : run cls σ [] = some σ := rfl

@[simp] theorem run_cons (a : α) :
    run cls σ (a :: s) = (step cls σ a).bind fun σ' => run cls σ' s := rfl

theorem run_append : run cls σ (s ++ t) = (run cls σ s).bind fun σ' => run cls σ' t :=
  List.foldlM_append

theorem tokensFrom_cons (a : α) :
    tokensFrom cls σ (a :: s) = (step cls σ a).bind fun σ' => tokensFrom cls σ' s := by
  rw [tokensFrom, run_cons, Option.bind_assoc]
  rfl

theorem tokensFrom_append :
    tokensFrom cls σ (s ++ t) = (run cls σ s).bind fun σ' => tokensFrom cls σ' t := by
  rw [tokensFrom, run_append, Option.bind_assoc]
  rfl

/-- The state with tokens before its own. -/
def State.behind (ts : List (Token α)) (σ : State α) : State α := { σ with tokens := ts ++ σ.tokens }

theorem plainStep_behind (ts : List (Token α)) (a : α) :
    plainStep cls (σ.behind ts) a = (plainStep cls σ a).map (State.behind ts) := by
  have hend : (σ.behind ts).endWord = σ.endWord.behind ts := by
    rcases hw : σ.word with _ | w <;> simp [State.behind, State.endWord, hw]
  have hbefore : ∀ o, (σ.behind ts).endBefore cls o = (σ.endBefore cls o).behind ts := by
    intro o
    rcases hw : σ.word with _ | w
    · simp [State.behind, State.endBefore, hw]
    · simp only [State.endBefore, State.behind, hw] at hend ⊢
      split
      · simp
      · exact hend
  unfold plainStep
  split
  all_goals try rw [hend]
  all_goals try rw [hbefore]
  all_goals try rfl
  · simp [State.behind, State.emit]
  · show (if σ.word.isNone then _ else _) = _
    split <;> rfl

theorem step_behind (ts : List (Token α)) (a : α) :
    step cls (σ.behind ts) a = (step cls σ a).map (State.behind ts) := by
  have hmode : (σ.behind ts).mode = σ.mode := rfl
  rw [step, step, hmode]
  split
  · exact plainStep_behind ts a
  · split <;> rfl
  · unfold dquotedStep
    split <;> rfl
  · unfold dquotedEscapedStep
    split <;> rfl
  · split <;> rfl
  · split <;> simp [State.behind, State.emit]
  · rename_i o
    split
    · rfl
    · rw [← plainStep_behind]
      simp [State.behind, State.emit]

/-- **The tokens before stay where they are.** -/
theorem tokensFrom_behind (ts : List (Token α)) :
    tokensFrom cls (σ.behind ts) s = (tokensFrom cls σ s).map (ts ++ ·) := by
  induction s generalizing σ with
  | nil =>
    show (σ.behind ts).finish = σ.finish.map (ts ++ ·)
    have hmode : (σ.behind ts).mode = σ.mode := rfl
    rw [State.finish, State.finish, hmode]
    rcases hw : σ.word with _ | w <;> split <;> simp [State.behind, State.endWord, hw]
  | cons a s ih =>
    rw [tokensFrom_cons, tokensFrom_cons, step_behind]
    rcases step cls σ a with _ | σ₁
    · rfl
    · exact ih

/-- A plain character goes into a word that has begun. -/
theorem step_plain {w : List α} {q : Bool} {ts : List (Token α)} {a : α} (h : (cls a).Plain) :
    step cls ⟨.plain, some w, q, ts⟩ a = some ⟨.plain, some (w ++ [a]), q, ts⟩ := by
  cases hc : cls a <;> simp_all [step, plainStep, CharClass.Plain, State.put]

theorem run_plain {w : List α} {q : Bool} {ts : List (Token α)} (h : ∀ a ∈ s, (cls a).Plain) :
    run cls ⟨.plain, some w, q, ts⟩ s = some ⟨.plain, some (w ++ s), q, ts⟩ := by
  induction s generalizing w with
  | nil => simp
  | cons a s ih =>
    rw [run_cons, step_plain (h a List.mem_cons_self), Option.bind_some,
      ih fun b hb => h b (List.mem_cons_of_mem a hb), List.append_assoc, List.singleton_append]

/-- A word of plain characters that does not start a comment. -/
def PlainWord (cls : α → CharClass) : List α → Prop
  | [] => False
  | a :: w => cls a ≠ .hash ∧ ∀ b ∈ a :: w, (cls b).Plain

instance (w : List α) : Decidable (PlainWord cls w) :=
  match w with
  | [] => inferInstanceAs (Decidable False)
  | a :: w => inferInstanceAs (Decidable (cls a ≠ .hash ∧ ∀ b ∈ a :: w, (cls b).Plain))

/-- Such a word is read from where no word has begun. -/
theorem run_plainWord {w : List α} (h : PlainWord cls w) {ts : List (Token α)} :
    run cls ⟨.plain, none, false, ts⟩ w = some ⟨.plain, some w, false, ts⟩ := by
  rcases w with _ | ⟨a, w⟩
  · exact h.elim
  have hw := h.2 a List.mem_cons_self
  have ha : step cls ⟨.plain, none, false, ts⟩ a = some ⟨.plain, some [a], false, ts⟩ := by
    have hne := h.1
    cases hc : cls a <;> simp_all [step, plainStep, CharClass.Plain, State.put]
  rw [run_cons, ha, Option.bind_some, run_plain fun b hb => h.2 b (List.mem_cons_of_mem a hb)]
  rfl

/-- Words with a blank before each. -/
def spaced (sp : α) (ws : List (List α)) : List α := ws.flatMap fun w => sp :: w

theorem spaced_nil (sp : α) : spaced sp [] = [] := rfl

theorem spaced_cons (sp : α) (w : List α) (ws : List (List α)) :
    spaced sp (w :: ws) = sp :: (w ++ spaced sp ws) := rfl

/-- The words of a line, up to one that goes on. -/
theorem run_spaced {sp : α} (hsp : cls sp = .blank) {ws : List (List α)}
    (hws : ∀ w ∈ ws, PlainWord cls w) {y : List α} (hy : PlainWord cls y) {w : List α} {q : Bool}
    {ts : List (Token α)} :
    run cls ⟨.plain, some w, q, ts⟩ (spaced sp ws ++ sp :: y) =
      some ⟨.plain, some y, false, ts ++ .word w :: ws.map .word⟩ := by
  have hblank : ∀ (w : List α) (q : Bool) (ts : List (Token α)),
      step cls ⟨.plain, some w, q, ts⟩ sp = some ⟨.plain, none, false, ts ++ [.word w]⟩ := by
    intro w q ts
    simp [step, plainStep, hsp, State.endWord]
  induction ws generalizing w q ts with
  | nil =>
    show run cls _ (sp :: y) = _
    rw [run_cons, hblank, Option.bind_some, run_plainWord hy]
    rfl
  | cons z ws ih =>
    have hsplit : spaced sp (z :: ws) ++ sp :: y = sp :: (z ++ (spaced sp ws ++ sp :: y)) := by
      simp [spaced]
    rw [hsplit, run_cons, hblank, Option.bind_some, run_append,
      run_plainWord (hws z List.mem_cons_self), Option.bind_some,
      ih fun x hx => hws x (List.mem_cons_of_mem z hx)]
    simp

/-- **A line of plain words.** -/
theorem tokensFrom_spaced {sp nl : α} (hsp : cls sp = .blank) (hnl : cls nl = .newline)
    {ws : List (List α)} (hws : ∀ w ∈ ws, PlainWord cls w) {w : List α} {q : Bool}
    {ts : List (Token α)} :
    tokensFrom cls ⟨.plain, some w, q, ts⟩ (spaced sp ws ++ [nl]) =
      some (ts ++ (.word w :: (ws.map .word ++ [.newline]))) := by
  have hend : ∀ (w : List α) (q : Bool) (ts : List (Token α)),
      tokensFrom cls ⟨.plain, some w, q, ts⟩ [nl] = some (ts ++ [.word w, .newline]) := by
    intro w q ts
    simp [step, plainStep, hnl, State.endWord, State.emit, tokensFrom, State.finish]
  rcases ws.eq_nil_or_concat' with rfl | ⟨ws, y, rfl⟩
  · exact hend w q ts
  · have hsplit : spaced sp (ws ++ [y]) ++ [nl] = (spaced sp ws ++ sp :: y) ++ [nl] := by
      simp [spaced]
    rw [hsplit, tokensFrom_append, run_spaced hsp (fun z hz => hws z (List.mem_append_left _ hz))
      (hws y (List.mem_append_right _ (List.mem_singleton_self y))), Option.bind_some, hend]
    simp

/-- **A command of plain words.** -/
theorem tokenise_spaced {sp nl : α} (hsp : cls sp = .blank) (hnl : cls nl = .newline) {w : List α}
    (hw : PlainWord cls w) {ws : List (List α)} (hws : ∀ w ∈ ws, PlainWord cls w) :
    tokenise cls (w ++ (spaced sp ws ++ [nl])) =
      some (.word w :: (ws.map .word ++ [.newline])) := by
  have hrun : run cls {} w = some ⟨.plain, some w, false, []⟩ := run_plainWord hw
  rw [tokenise, tokensFrom_append, hrun, Option.bind_some, tokensFrom_spaced hsp hnl hws,
    List.nil_append]

/-- A text that is itself in double quotes: no NUL, no expansion, no quote, and no backslash at its
end or before a backslash or a newline. -/
def quotableText (cls : α → CharClass) : List α → Bool
  | [] => true
  | a :: s =>
    if cls a = .backslash then
      (s.head?.any fun b => (cls b).Quotable && cls b ≠ .newline) && quotableText cls s
    else (cls a).Quotable && quotableText cls s

theorem step_quotable {w : List α} {q : Bool} {ts : List (Token α)} {a : α}
    (h : (cls a).Quotable) :
    step cls ⟨.dquoted, some w, q, ts⟩ a = some ⟨.dquoted, some (w ++ [a]), q, ts⟩ := by
  cases hc : cls a <;> simp_all [step, dquotedStep, CharClass.Quotable, State.put]

/-- A backslash before an ordinary character is a character. -/
theorem step_dquotedEscaped {w : List α} {q : Bool} {ts : List (Token α)} {a b : α}
    (hb : (cls b).Quotable) (hnl : cls b ≠ .newline) :
    step cls ⟨.dquotedEscaped a, some w, q, ts⟩ b =
      step cls ⟨.dquoted, some (w ++ [a]), q, ts⟩ b := by
  rw [step_quotable hb]
  cases hc : cls b <;> simp_all [step, dquotedEscapedStep, CharClass.Quotable, State.put]

theorem run_quotableText (h : quotableText cls s) {w : List α} {q : Bool} {ts : List (Token α)} :
    run cls ⟨.dquoted, some w, q, ts⟩ s = some ⟨.dquoted, some (w ++ s), q, ts⟩ := by
  induction s generalizing w with
  | nil => simp
  | cons a s ih =>
    by_cases ha : cls a = .backslash
    · rcases s with _ | ⟨b, s⟩
      · simp [quotableText, ha] at h
      simp only [quotableText, if_pos ha, List.head?_cons, Option.any_some, Bool.and_eq_true,
        decide_eq_true_eq] at h
      have hstep : step cls ⟨.dquoted, some w, q, ts⟩ a =
          some ⟨.dquotedEscaped a, some w, q, ts⟩ := by
        simp [step, dquotedStep, ha]
      rw [run_cons, hstep, Option.bind_some, run_cons, step_dquotedEscaped h.1.1 h.1.2, ← run_cons,
        ih (by simpa [quotableText] using h.2), List.append_assoc, List.singleton_append]
    · simp only [quotableText, if_neg ha, Bool.and_eq_true] at h
      rw [run_cons, step_quotable h.1, Option.bind_some, ih h.2, List.append_assoc,
        List.singleton_append]

end Runs

/-! ### Sizes -/

section Sizes

variable {α : Type} {cls : α → CharClass} {σ σ' : State α} {s t : List α}

/-- The characters of a token that are part of a word. -/
def Token.size : Token α → ℕ
  | word w | ioNumber w => w.length
  | op _ | newline => 0

def tokensSize (ts : List (Token α)) : ℕ := (ts.map Token.size).sum

/-- The characters read as part of a word. -/
def State.size (σ : State α) : ℕ := tokensSize σ.tokens + (σ.word.getD []).length

/-- The backslash that may turn out to be a character. -/
def Mode.pending : Mode α → ℕ
  | dquotedEscaped _ => 1
  | _ => 0

/-- How many characters that were none it took to come here from double quotes. -/
def Mode.outside : Mode α → ℕ
  | dquoted | dquotedEscaped _ => 0
  | plain | comment | operator _ => 1
  | escaped | squoted => 2

/-- The size, with the backslash pending and `k` times the way out of double quotes. -/
def State.weight (k : ℕ) (σ : State α) : ℕ := σ.size + σ.mode.pending + k * σ.mode.outside

@[simp] theorem tokensSize_append (ts us : List (Token α)) :
    tokensSize (ts ++ us) = tokensSize ts + tokensSize us := by
  simp [tokensSize]

@[simp] theorem tokensSize_cons (t : Token α) (ts : List (Token α)) :
    tokensSize (t :: ts) = t.size + tokensSize ts := rfl

@[simp] theorem tokensSize_nil : tokensSize ([] : List (Token α)) = 0 := rfl

theorem State.mode_put (σ : State α) (a : α) : (σ.put a).mode = σ.mode := rfl

theorem State.size_put (σ : State α) (a : α) : (σ.put a).size = σ.size + 1 := by
  simp [State.size, State.put]
  omega

theorem State.size_openQuote (m : Mode α) : (σ.openQuote m).size = σ.size := by
  simp [State.size, State.openQuote]

theorem State.size_endWord (σ : State α) : σ.endWord.size = σ.size := by
  rcases hw : σ.word with _ | w <;> simp [State.size, State.endWord, hw, Token.size]

theorem State.size_endBefore (o : OpChar) : (σ.endBefore cls o).size = σ.size := by
  rcases hw : σ.word with _ | w
  · simp [State.endBefore, hw]
  · simp only [State.endBefore, hw]
    split
    · simp [State.size, hw, Token.size]
    · exact State.size_endWord σ

theorem State.size_emit {t : Token α} (ht : t.size = 0) : (σ.emit t).size = σ.size := by
  simp [State.size, State.emit, ht]

/-! ### Moves -/

/-- Outside of quotes. -/
def Mode.Open : Mode α → Prop
  | plain | comment | operator _ => True
  | _ => False

/-- In quotes. -/
def Mode.Quoted : Mode α → Prop
  | dquoted | dquotedEscaped _ | squoted => True
  | _ => False

/-- What a step does to the mode, and the characters it adds to the size. -/
inductive Move (cls : α → CharClass) : Mode α → α → Mode α → ℕ → Prop
  | char {m a} : m.Open → (cls a).Plain → Move cls m a .plain 1
  | between {m a m'} : m.Open → m'.Open → Move cls m a m' 0
  | escape {m a} : m.Open → cls a = .backslash → Move cls m a .escaped 0
  | openDquote {m a} : m.Open → cls a = .dquote → Move cls m a .dquoted 0
  | openSquote {m a} : m.Open → cls a = .squote → Move cls m a .squoted 0
  | escaped {a n} : n ≤ 1 → Move cls .escaped a .plain n
  | dquoted {a} : (cls a).Quotable → Move cls .dquoted a .dquoted 1
  | closeDquote {a} : cls a = .dquote → Move cls .dquoted a .plain 0
  | backslash {a} : cls a = .backslash → Move cls .dquoted a (.dquotedEscaped a) 0
  | noEscape {a b} : (cls a).Quotable → cls a ≠ .newline →
      Move cls (.dquotedEscaped b) a .dquoted 2
  | dquotedEscaped {a b n} : n ≤ 1 → ¬ ((cls a).Quotable ∧ cls a ≠ .newline) →
      Move cls (.dquotedEscaped b) a .dquoted n
  | squoted {a} : Move cls .squoted a .squoted 1
  | closeSquote {a} : cls a = .squote → Move cls .squoted a .plain 0

theorem plainStep_move {a : α} (hm : σ.mode = .plain) (h : plainStep cls σ a = some σ')
    {m : Mode α} (ho : m.Open) : ∃ n, Move cls m a σ'.mode n ∧ σ'.size = σ.size + n := by
  have hend : σ.endWord.mode = .plain := by
    unfold State.endWord
    split <;> exact hm
  unfold plainStep at h
  split at h
  all_goals first
    | cases h
    | obtain rfl := Option.some.inj h
    | skip
  · exact ⟨0, .between ho (hend ▸ trivial), State.size_endWord σ⟩
  · refine ⟨0, .between ho ?_, (State.size_emit rfl).trans (State.size_endWord σ)⟩
    show σ.endWord.mode.Open
    exact hend ▸ trivial
  · exact ⟨0, .openDquote ho ‹_›, State.size_openQuote _⟩
  · exact ⟨0, .openSquote ho ‹_›, State.size_openQuote _⟩
  · exact ⟨0, .escape ho ‹_›, rfl⟩
  · exact ⟨0, .between ho trivial, State.size_endBefore _⟩
  · rename_i hc
    split at h <;> obtain rfl := Option.some.inj h
    · exact ⟨0, .between ho trivial, rfl⟩
    · exact ⟨1, hm ▸ .char ho (by rw [hc]; rfl), State.size_put σ a⟩
  all_goals
    rename_i hc
    have hput : (σ.put a).mode = .plain := hm
    exact ⟨1, hput ▸ .char ho (by rw [hc]; rfl), State.size_put σ a⟩

/-- **What a step does.** -/
theorem step_move {a : α} (h : step cls σ a = some σ') :
    ∃ n, Move cls σ.mode a σ'.mode n ∧ σ'.size = σ.size + n := by
  unfold step at h
  split at h <;> rename_i hm <;> rw [hm]
  · exact plainStep_move hm h trivial
  · split at h
    · cases h
    · obtain rfl := Option.some.inj h
      exact ⟨0, .escaped (by omega), rfl⟩
    · obtain rfl := Option.some.inj h
      exact ⟨1, .escaped (by omega), State.size_put σ a⟩
  · unfold dquotedStep at h
    split at h
    · cases h
    · cases h
    · obtain rfl := Option.some.inj h
      exact ⟨0, .closeDquote ‹_›, rfl⟩
    · obtain rfl := Option.some.inj h
      exact ⟨0, .backslash ‹_›, rfl⟩
    · obtain rfl := Option.some.inj h
      refine ⟨1, ?_, State.size_put σ a⟩
      rw [State.mode_put, hm]
      exact .dquoted (by cases hc : cls a <;> simp_all [CharClass.Quotable])
  · rename_i b
    unfold dquotedEscapedStep at h
    split at h
    · cases h
    · rename_i hc
      obtain rfl := Option.some.inj h
      exact ⟨0, .dquotedEscaped (by omega) (by simp [hc]), rfl⟩
    iterate 3
      · rename_i hc
        obtain rfl := Option.some.inj h
        exact ⟨1, .dquotedEscaped (by omega) (by simp [hc, CharClass.Quotable]), State.size_put σ a⟩
    · obtain rfl := Option.some.inj h
      refine ⟨2, .noEscape (by cases hc : cls a <;> simp_all [CharClass.Quotable]) ‹_›, ?_⟩
      exact (State.size_put (σ.put b) a).trans (by rw [State.size_put])
  · split at h
    · cases h
    · obtain rfl := Option.some.inj h
      exact ⟨0, .closeSquote ‹_›, rfl⟩
    · obtain rfl := Option.some.inj h
      refine ⟨1, ?_, State.size_put σ a⟩
      rw [State.mode_put, hm]
      exact .squoted
  · split at h
    · cases h
    · obtain rfl := Option.some.inj h
      exact ⟨0, .between trivial trivial, State.size_emit rfl⟩
    · obtain rfl := Option.some.inj h
      refine ⟨0, ?_, rfl⟩
      rw [hm]
      exact .between trivial trivial
  · rename_i o
    split at h
    · obtain rfl := Option.some.inj h
      exact ⟨0, .between trivial trivial, rfl⟩
    · obtain ⟨n, hn, hsize⟩ := plainStep_move rfl h (m := .operator o) trivial
      exact ⟨n, hn, hsize.trans (congrArg (· + n) (State.size_emit rfl))⟩

theorem Mode.Open.weights {m : Mode α} (h : m.Open) : m.pending = 0 ∧ m.outside = 1 := by
  cases m <;> first | exact h.elim | exact ⟨rfl, rfl⟩

theorem Move.weight_le {m m' : Mode α} {a : α} {n k : ℕ} (hk : k ≤ 1) (h : Move cls m a m' n) :
    n + m'.pending + k * m'.outside ≤ m.pending + k * m.outside + 1 := by
  cases h with
  | between ho ho' => rw [ho.weights.1, ho.weights.2, ho'.weights.1, ho'.weights.2]; omega
  | char ho => rw [ho.weights.1, ho.weights.2]; simp only [Mode.pending, Mode.outside]; omega
  | escape ho => rw [ho.weights.1, ho.weights.2]; simp only [Mode.pending, Mode.outside]; omega
  | openDquote ho => rw [ho.weights.1, ho.weights.2]; simp only [Mode.pending, Mode.outside]; omega
  | openSquote ho => rw [ho.weights.1, ho.weights.2]; simp only [Mode.pending, Mode.outside]; omega
  | _ => simp only [Mode.pending, Mode.outside]; omega

/-- **A character adds one to the weight at most.** -/
theorem run_weight {k : ℕ} (hk : k ≤ 1) (h : run cls σ s = some σ') :
    σ'.weight k ≤ σ.weight k + s.length := by
  induction s generalizing σ with
  | nil =>
    obtain rfl := Option.some.inj h
    exact Nat.le_refl _
  | cons a s ih =>
    obtain ⟨σ₁, hstep, hrun⟩ := Option.bind_eq_some_iff.1 h
    obtain ⟨n, hmove, hsize⟩ := step_move hstep
    have hle := hmove.weight_le hk
    have hrest := ih hrun
    simp only [State.weight, hsize, List.length_cons] at hrest ⊢
    omega

/-! ### Texts that lose characters -/

/-- The first character moves the mode, the others add one each at most. -/
theorem run_cons_move {a : α} (h : run cls σ (a :: s) = some σ') :
    ∃ m n, Move cls σ.mode a m n ∧ σ'.weight 0 ≤ σ.size + n + m.pending + s.length := by
  obtain ⟨σ₁, hstep, hrun⟩ := Option.bind_eq_some_iff.1 h
  obtain ⟨n, hmove, hsize⟩ := step_move hstep
  have hle := run_weight (Nat.zero_le 1) hrun
  have hstart : σ₁.weight 0 = σ.size + n + σ₁.mode.pending := by
    rw [State.weight, hsize, Nat.zero_mul, Nat.add_zero]
  rw [hstart] at hle
  exact ⟨σ₁.mode, n, hmove, hle⟩

theorem Move.of_not_plain {m m' : Mode α} {a : α} {n : ℕ} (h : Move cls m a m' n) (ho : m.Open)
    (ha : ¬ (cls a).Plain) : n = 0 ∧ m'.pending = 0 := by
  cases h with
  | char _ hp => exact absurd hp ha
  | between _ ho' => exact ⟨rfl, ho'.weights.1⟩
  | escape | openDquote | openSquote => exact ⟨rfl, rfl⟩
  | _ => exact ho.elim

/-- A text with a character that is not plain loses one, where a word has begun. -/
theorem weight_lt_of_not_plain {w : List α} {q : Bool} {ts : List (Token α)}
    (hs : ¬ ∀ a ∈ s, (cls a).Plain) (h : run cls ⟨.plain, some w, q, ts⟩ s = some σ') :
    σ'.weight 0 < tokensSize ts + w.length + s.length := by
  induction s generalizing w with
  | nil => exact absurd (fun a ha => absurd ha List.not_mem_nil) hs
  | cons a s ih =>
    by_cases ha : (cls a).Plain
    · have hs' : ¬ ∀ b ∈ s, (cls b).Plain := by
        intro hs'
        apply hs
        intro b hb
        rcases List.mem_cons.1 hb with rfl | hb
        · exact ha
        · exact hs' b hb
      rw [run_cons, step_plain ha, Option.bind_some] at h
      have hlt := ih hs' h
      rw [List.length_append, List.length_singleton] at hlt
      rw [List.length_cons]
      omega
    · obtain ⟨m, n, hmove, hle⟩ := run_cons_move h
      obtain ⟨rfl, hp⟩ := hmove.of_not_plain trivial ha
      have hstart : (⟨.plain, some w, q, ts⟩ : State α).size = tokensSize ts + w.length := rfl
      rw [hstart, hp] at hle
      rw [List.length_cons]
      omega

/-- A text that is not itself in double quotes loses a character by the time it is back in them. -/
theorem size_lt_of_not_quotable {w : List α} {q : Bool} {ts : List (Token α)}
    (hs : ¬ quotableText cls s) (h : run cls ⟨.dquoted, some w, q, ts⟩ s = some σ')
    (hm : σ'.mode = .dquoted) : σ'.size < tokensSize ts + w.length + s.length := by
  induction s generalizing w with
  | nil => exact absurd rfl hs
  | cons a s ih =>
    by_cases ha : cls a = .backslash
    · have hstep : step cls ⟨.dquoted, some w, q, ts⟩ a =
          some ⟨.dquotedEscaped a, some w, q, ts⟩ := by
        simp [step, dquotedStep, ha]
      rw [run_cons, hstep, Option.bind_some] at h
      rcases s with _ | ⟨b, s⟩
      · obtain rfl := Option.some.inj h
        cases hm
      by_cases hb : (cls b).Quotable ∧ cls b ≠ .newline
      · have hs' : ¬ quotableText cls (b :: s) := by
          intro hs'
          exact hs (by simp [quotableText, ha, hb] at hs' ⊢; exact hs')
        rw [run_cons, step_dquotedEscaped hb.1 hb.2, ← run_cons] at h
        have hlt := ih hs' h
        rw [List.length_append, List.length_singleton] at hlt
        rw [List.length_cons (a := a)]
        omega
      · obtain ⟨m, n, hmove, hle⟩ := run_cons_move h
        have hn : n ≤ 1 ∧ m.pending = 0 := by
          cases hmove with
          | noEscape h1 h2 => exact absurd ⟨h1, h2⟩ hb
          | between ho => exact ho.elim
          | dquotedEscaped hn => exact ⟨hn, rfl⟩
          | _ => contradiction
        have hstart : (⟨.dquotedEscaped a, some w, q, ts⟩ : State α).size =
            tokensSize ts + w.length := rfl
        rw [State.weight, hstart, hn.2] at hle
        rw [List.length_cons, List.length_cons]
        omega
    by_cases hq : (cls a).Quotable
    · have hs' : ¬ quotableText cls s := by
        intro hs'
        exact hs (by simp [quotableText, ha, hq, hs'])
      rw [run_cons, step_quotable hq, Option.bind_some] at h
      have hlt := ih hs' h
      rw [List.length_append, List.length_singleton] at hlt
      rw [List.length_cons]
      omega
    · obtain ⟨m, n, hmove, hle⟩ := run_cons_move h
      have hn : n = 0 ∧ m.pending = 0 := by
        cases hmove with
        | dquoted h1 => exact absurd h1 hq
        | backslash h1 => exact absurd h1 ha
        | between ho => exact ho.elim
        | closeDquote => exact ⟨rfl, rfl⟩
        | _ => contradiction
      have hstart : (⟨.dquoted, some w, q, ts⟩ : State α).size = tokensSize ts + w.length := rfl
      rw [State.weight, hstart, hn.1, hn.2] at hle
      rw [List.length_cons]
      omega

/-! ### The rest of the command -/

/-- Characters that no quote is made of leave a reader outside of quotes there. -/
theorem run_open (ho : σ.mode.Open) (hs : ∀ a ∈ s, (cls a).Unquoting)
    (h : run cls σ s = some σ') :
    σ'.mode.Open ∧ σ'.size ≤ σ.size + s.countP fun a => (cls a).Plain := by
  induction s generalizing σ with
  | nil =>
    obtain rfl := Option.some.inj h
    exact ⟨ho, Nat.le_refl _⟩
  | cons a s ih =>
    obtain ⟨σ₁, hstep, hrun⟩ := Option.bind_eq_some_iff.1 h
    obtain ⟨n, hmove, hsize⟩ := step_move hstep
    have ha := hs a List.mem_cons_self
    have hn : σ₁.mode.Open ∧ n ≤ if (cls a).Plain then 1 else 0 := by
      generalize σ.mode = m at hmove ho
      generalize σ₁.mode = m' at hmove
      cases hmove with
      | char _ hp => exact ⟨trivial, by simp [hp]⟩
      | between _ ho' => exact ⟨ho', Nat.zero_le _⟩
      | escape _ hc | openDquote _ hc | openSquote _ hc => simp [hc, CharClass.Unquoting] at ha
      | _ => exact ho.elim
    obtain ⟨ho', hle⟩ := ih hn.1 (fun b hb => hs b (List.mem_cons_of_mem a hb)) hrun
    refine ⟨ho', ?_⟩
    rw [List.countP_cons]
    omega

/-- A reader in quotes stays there until a quote. -/
theorem run_quoted (hm : σ.mode.Quoted) (hs : ∀ a ∈ s, (cls a).Unquoting)
    (h : run cls σ s = some σ') : σ'.mode.Quoted := by
  induction s generalizing σ with
  | nil =>
    obtain rfl := Option.some.inj h
    exact hm
  | cons a s ih =>
    obtain ⟨σ₁, hstep, hrun⟩ := Option.bind_eq_some_iff.1 h
    obtain ⟨n, hmove, -⟩ := step_move hstep
    have ha := hs a List.mem_cons_self
    refine ih ?_ (fun b hb => hs b (List.mem_cons_of_mem a hb)) hrun
    generalize σ.mode = m at hmove hm
    generalize σ₁.mode = m' at hmove
    cases hmove with
    | closeDquote hc | closeSquote hc => simp [hc, CharClass.Unquoting] at ha
    | char ho | between ho | escape ho | openDquote ho | openSquote ho =>
      cases m <;> first | exact hm.elim | exact ho.elim
    | escaped => exact hm.elim
    | _ => trivial

theorem tokensFrom_quoted (hm : σ.mode.Quoted) (hs : ∀ a ∈ s, (cls a).Unquoting) :
    tokensFrom cls σ s = none := by
  rw [tokensFrom]
  rcases h : run cls σ s with _ | σ₁
  · rfl
  have hq := run_quoted hm hs h
  rw [Option.bind_some, State.finish]
  split
  all_goals
    rename_i hm₁
    first
      | rfl
      | (rw [hm₁] at hq
         exact hq.elim)

/-- **From outside of quotes, the tokens have no more characters than were read.** -/
theorem tokensSize_le (ho : σ.mode.Open) (hs : ∀ a ∈ s, (cls a).Unquoting) {r : List (Token α)}
    (h : tokensFrom cls σ s = some r) :
    tokensSize r ≤ σ.size + s.countP fun a => (cls a).Plain := by
  obtain ⟨σ₁, hrun, hfin⟩ := Option.bind_eq_some_iff.1 h
  refine Nat.le_trans ?_ (run_open ho hs hrun).2
  have hword : tokensSize σ₁.tokens ≤ σ₁.size := Nat.le_add_right _ _
  have hend : tokensSize σ₁.endWord.tokens ≤ σ₁.size :=
    State.size_endWord σ₁ ▸ Nat.le_add_right _ _
  unfold State.finish at hfin
  split at hfin <;> cases hfin
  · exact hend
  · exact hend
  · simpa [Token.size] using hword

/-! ### Commands with a text put into them -/

theorem tokensSize_words (ws : List (List α)) :
    tokensSize (ws.map .word ++ [.newline]) = (ws.map List.length).sum := by
  induction ws with
  | nil => rfl
  | cons w ws ih => rw [List.map_cons, List.cons_append, tokensSize_cons, ih, List.map_cons,
      List.sum_cons, Token.size]

theorem PlainWord.plain {w : List α} (h : PlainWord cls w) : ∀ a ∈ w, (cls a).Plain := by
  rcases w with _ | ⟨a, w⟩
  · exact h.elim
  · exact h.2

theorem CharClass.unquoting_of_plain {c : CharClass} (h : c.Plain) : c.Unquoting := by
  cases c <;> first | rfl | cases h

section Spaced

variable {sp nl : α} (hsp : cls sp = .blank) (hnl : cls nl = .newline) {ws : List (List α)}
  (hws : ∀ w ∈ ws, PlainWord cls w)
include hsp hnl hws

theorem unquoting_spaced : ∀ a ∈ spaced sp ws ++ [nl], (cls a).Unquoting := by
  intro a ha
  simp only [spaced, List.mem_append, List.mem_flatMap, List.mem_cons, List.not_mem_nil,
    or_false] at ha
  rcases ha with ⟨w, hw, rfl | ha⟩ | rfl
  · rw [hsp]
    rfl
  · exact CharClass.unquoting_of_plain ((hws w hw).plain a ha)
  · rw [hnl]
    rfl

theorem countP_spaced :
    (spaced sp ws ++ [nl]).countP (fun a => (cls a).Plain) = (ws.map List.length).sum := by
  induction ws with
  | nil => simp [spaced, hnl, CharClass.Plain]
  | cons w ws ih =>
    have hw : w.countP (fun a => (cls a).Plain) = w.length :=
      List.countP_eq_length.2 (hws w List.mem_cons_self).plain
    have hsplit : spaced sp (w :: ws) ++ [nl] = sp :: (w ++ (spaced sp ws ++ [nl])) := by
      simp [spaced]
    have hsp' : (cls sp).Plain = false := by rw [hsp]; rfl
    rw [hsplit, List.countP_cons, if_neg (by simp [hsp']), Nat.add_zero, List.countP_append, hw,
      ih fun z hz => hws z (List.mem_cons_of_mem w hz), List.map_cons, List.sum_cons]

/-- After a backslash, the blank or the newline before the next word is lost. -/
theorem tokensFrom_escaped_ne (hm : σ.mode = .escaped) (v : List α) (ts : List (Token α))
    (hlt : σ.size < tokensSize ts + v.length) :
    tokensFrom cls σ (spaced sp ws ++ [nl]) ≠
      some (ts ++ (.word v :: (ws.map .word ++ [.newline]))) := by
  obtain ⟨m, w, q, us⟩ := σ
  obtain rfl : m = .escaped := hm
  intro h
  rcases ws with _ | ⟨y, ws⟩
  · have hstep : step cls ⟨.escaped, w, q, us⟩ nl = some ⟨.plain, w, q, us⟩ := by
      simp [step, hnl]
    have hend : tokensFrom cls ⟨.plain, w, q, us⟩ [] = some (ts ++ [.word v, .newline]) := by
      simpa [spaced, tokensFrom, hstep] using h
    have ho : (⟨.plain, w, q, us⟩ : State α).mode.Open := trivial
    have hle := tokensSize_le ho (by simp) hend
    have hsize : (⟨.plain, w, q, us⟩ : State α).size = (⟨.escaped, w, q, us⟩ : State α).size := rfl
    simp only [tokensSize_append, tokensSize_cons, Token.size, List.countP_nil] at hle
    omega
  · have hsplit : spaced sp (y :: ws) ++ [nl] = sp :: (y ++ (spaced sp ws ++ [nl])) := by
      simp [spaced]
    have hstep : step cls ⟨.escaped, w, q, us⟩ sp =
        some ⟨.plain, some (w.getD [] ++ [sp]), true, us⟩ := by
      simp [step, hsp, State.put]
    have hy := hws y List.mem_cons_self
    rw [hsplit, tokensFrom_cons, hstep, Option.bind_some, tokensFrom_append, run_plain hy.plain,
      Option.bind_some, tokensFrom_spaced hsp hnl fun z hz => hws z (List.mem_cons_of_mem y hz),
      Option.some.injEq, List.map_cons] at h
    -- the word `y` would have the escaped blank in it
    have hcancel : us ++ [.word (w.getD [] ++ [sp] ++ y)] = (ts ++ [.word v]) ++ [.word y] := by
      refine List.append_cancel_right
        (?_ : _ ++ (ws.map Token.word ++ [.newline]) = _ ++ (ws.map Token.word ++ [.newline]))
      simpa using h
    have hlast := (List.append_inj' hcancel rfl).2
    have hlen := congrArg List.length (Token.word.inj (List.singleton_inj.1 hlast))
    simp only [List.length_append, List.length_singleton] at hlen
    omega

/-- **A text put after the beginning of a plain word** gives the tokens with the text in that word,
iff it is plain. -/
theorem tokenise_word_iff {w text v : List α} {q : Bool} {ts : List (Token α)}
    (hv : text.length ≤ v.length) :
    tokensFrom cls ⟨.plain, some w, q, ts⟩ (text ++ (spaced sp ws ++ [nl])) =
        some (ts ++ (.word (w ++ v) :: (ws.map .word ++ [.newline]))) ↔
      (∀ a ∈ text, (cls a).Plain) ∧ v = text := by
  constructor
  · intro h
    by_cases hs : ∀ a ∈ text, (cls a).Plain
    · rw [tokensFrom_append, run_plain hs, Option.bind_some, tokensFrom_spaced hsp hnl hws] at h
      simp only [Option.some.injEq, List.append_cancel_left_eq, List.cons.injEq, Token.word.injEq,
        and_true] at h
      exact ⟨hs, h.symm⟩
    · exfalso
      rw [tokensFrom_append] at h
      obtain ⟨σ₁, hrun, hfin⟩ := Option.bind_eq_some_iff.1 h
      have hlt := weight_lt_of_not_plain hs hrun
      unfold State.weight at hlt
      by_cases ho : σ₁.mode.Open
      · have hle := tokensSize_le ho (unquoting_spaced hsp hnl hws) hfin
        rw [countP_spaced hsp hnl hws, tokensSize_append, tokensSize_cons, tokensSize_words] at hle
        simp only [Token.size, List.length_append] at hle
        omega
      by_cases hq : σ₁.mode.Quoted
      · rw [tokensFrom_quoted hq (unquoting_spaced hsp hnl hws)] at hfin
        cases hfin
      have hm : σ₁.mode = .escaped := by
        generalize σ₁.mode = m at ho hq
        cases m <;> first | rfl | exact absurd trivial ho | exact absurd trivial hq
      refine tokensFrom_escaped_ne hsp hnl hws hm (w ++ v) ts ?_ hfin
      rw [List.length_append]
      omega
  · rintro ⟨hs, rfl⟩
    rw [tokensFrom_append, run_plain hs, Option.bind_some, tokensFrom_spaced hsp hnl hws]

/-- **A command of plain words, with a text put after the beginning of one of them**, has the tokens
it would have with the text in that word, iff the text is plain. -/
theorem tokenise_command_iff {w pre : List α} (hw : PlainWord cls w) (hpre : PlainWord cls pre)
    {front : List (List α)} (hfront : ∀ w ∈ front, PlainWord cls w) {text v : List α}
    (hv : text.length ≤ v.length) :
    tokenise cls (w ++ ((spaced sp front ++ sp :: pre) ++ (text ++ (spaced sp ws ++ [nl])))) =
        some ((.word w :: front.map .word) ++ (.word (pre ++ v) :: (ws.map .word ++ [.newline]))) ↔
      (∀ a ∈ text, (cls a).Plain) ∧ v = text := by
  have hrun : run cls {} w = some ⟨.plain, some w, false, []⟩ := run_plainWord hw
  rw [tokenise, tokensFrom_append, hrun, Option.bind_some, tokensFrom_append,
    run_spaced hsp hfront hpre, Option.bind_some, List.nil_append]
  exact tokenise_word_iff hsp hnl hws hv

end Spaced

/-- **A text put into double quotes** gives the tokens with the text in that word, iff it is
quotable. -/
theorem tokenise_quoted_iff {dq : α} (hdq : cls dq = .dquote) {rest : List α} {tr : List (Token α)}
    (hrest : ∀ a ∈ rest, (cls a).Unquoting)
    (hsize : rest.countP (fun a => (cls a).Plain) ≤ tokensSize tr)
    (hback : ∀ (w : List α) (q : Bool) (ts : List (Token α)),
      tokensFrom cls ⟨.plain, some w, q, ts⟩ rest = some (ts ++ .word w :: tr))
    {w text v : List α} {q : Bool} {ts : List (Token α)} (hv : text.length ≤ v.length) :
    tokensFrom cls ⟨.dquoted, some w, q, ts⟩ (text ++ dq :: rest) =
        some (ts ++ .word (w ++ v) :: tr) ↔
      quotableText cls text ∧ v = text := by
  have hclose : ∀ (w : Option (List α)) (q : Bool) (ts : List (Token α)),
      step cls ⟨.dquoted, w, q, ts⟩ dq = some ⟨.plain, w, q, ts⟩ := by
    intro w q ts
    simp [step, dquotedStep, hdq]
  constructor
  · intro h
    by_cases hs : quotableText cls text
    · rw [tokensFrom_append, run_quotableText hs, Option.bind_some, tokensFrom_cons, hclose,
        Option.bind_some, hback] at h
      simp only [Option.some.injEq, List.append_cancel_left_eq, List.cons.injEq, Token.word.injEq,
        and_true] at h
      exact ⟨hs, h.symm⟩
    · exfalso
      rw [tokensFrom_append] at h
      obtain ⟨σ₁, hrun, hfin⟩ := Option.bind_eq_some_iff.1 h
      have hle := run_weight (Nat.le_refl 1) hrun
      rw [tokensFrom_cons] at hfin
      obtain ⟨σ₂, hstep, hfin⟩ := Option.bind_eq_some_iff.1 hfin
      obtain ⟨n, hmove, hsize₂⟩ := step_move hstep
      have hstart : (⟨.dquoted, some w, q, ts⟩ : State α).weight 1 = tokensSize ts + w.length := rfl
      rw [hstart, State.weight] at hle
      have hlt := size_lt_of_not_quotable hs hrun
      -- the quote of the command opens quotes, or it comes too late
      have hkey : σ₂.mode.Quoted ∨
          (σ₂.mode.Open ∧ σ₂.size < tokensSize ts + w.length + text.length) := by
        generalize σ₁.mode = m at hmove hle hlt
        generalize σ₂.mode = m' at hmove
        cases hmove with
        | char _ hp | dquoted hp | noEscape hp =>
          simp [hdq, CharClass.Plain, CharClass.Quotable] at hp
        | escape _ hc | openSquote _ hc | backslash hc | closeSquote hc => simp [hdq] at hc
        | openDquote | dquotedEscaped | squoted => exact .inl trivial
        | between ho ho' =>
          rw [ho.weights.1, ho.weights.2] at hle
          exact .inr ⟨ho', by omega⟩
        | escaped hn =>
          simp only [Mode.pending, Mode.outside] at hle
          exact .inr ⟨trivial, by omega⟩
        | closeDquote =>
          have := hlt rfl
          exact .inr ⟨trivial, by omega⟩
      rcases hkey with hq | ⟨ho, hlt₂⟩
      · rw [tokensFrom_quoted hq hrest] at hfin
        cases hfin
      · have hle₂ := tokensSize_le ho hrest hfin
        simp only [tokensSize_append, tokensSize_cons, Token.size, List.length_append] at hle₂
        omega
  · rintro ⟨hs, rfl⟩
    rw [tokensFrom_append, run_quotableText hs, Option.bind_some, tokensFrom_cons, hclose,
      Option.bind_some, hback]

end Sizes

/-! ### Simple commands -/

section Commands

variable {α : Type}

/-- A redirection operator. -/
def redirects (o : List OpChar) : Bool := o.head? == some .less || o.head? == some .great

/-- The words of the command at the head of a text, without its redirections. -/
def commandWords : List (Token α) → List (List α)
  | .word w :: ts => w :: commandWords ts
  | .ioNumber _ :: ts => commandWords ts
  | .op o :: .word _ :: ts => if redirects o then commandWords ts else []
  | _ => []

theorem commandWords_append (ws : List (List α)) (ts : List (Token α)) :
    commandWords (ws.map .word ++ ts) = ws ++ commandWords ts := by
  induction ws with
  | nil => rfl
  | cons w ws ih => rw [List.map_cons, List.cons_append, commandWords, ih, List.cons_append]

end Commands

end LocTag.Lib.Shell
