import Mathlib.Data.List.TakeWhile
import ReplicatedStore.Proofs.Settings.Keys

/-!
# Filling is one pass from left to right

The grammar of placeholders is told apart from how they are looked for: `Starts` says that a text starts
with a placeholder and what follows it, and `Reads` goes through a text from left to right. Where a
placeholder starts it puts out a value, a default or the placeholder as it stands and goes on behind it;
where none starts it copies one character. So what is put out is never read again, and where the next
step of the pass begins depends on the text alone.

The search is greedy and never goes back. It misses nothing, since what ends a name may not stand in
one: there is at most one placeholder that a text starts with.

Main results:

* `Placeholder.ahead?_eq_some_iff` — the search finds what the grammar tells.
* `Placeholder.reads_iff` — filling is the pass over the text.
* `Placeholder.fill_malformed_append`, `Placeholder.fill_append_unclosed` — what is nearly a placeholder
  is copied.
* `Placeholder.fill_is_one_pass` — the pass, its steps and what they leave alone.
-/

namespace ReplicatedStore

namespace Placeholder

/-- Whether characters make up a name, which ends at a brace or a colon. -/
structure IsName (name : List Char) : Prop where
  ne_nil : name ≠ []
  inside : ∀ c ∈ name, c ≠ '\x7d' ∧ c ≠ ':'

/-- Whether characters make up a default, which ends at a brace. -/
structure IsDefault (value : List Char) : Prop where
  ne_nil : value ≠ []
  inside : '\x7d' ∉ value

/-- A text that starts with a placeholder, and what follows it. -/
inductive Starts : List Char → Placeholder → List Char → Prop
  | bare {name rest : List Char} (isName : IsName name) :
      Starts ('$' :: '\x7b' :: (name ++ '\x7d' :: rest)) ⟨name, none⟩ rest
  | defaulted {name value rest : List Char} (isName : IsName name) (isDefault : IsDefault value) :
      Starts ('$' :: '\x7b' :: (name ++ ':' :: '-' :: (value ++ '\x7d' :: rest))) ⟨name, some value⟩ rest

/-- A pass over a text from left to right: the placeholders that it meets, and what it puts out. -/
inductive Reads (env : Environment) : List Char → List Placeholder → List Char → Prop
  | nothing : Reads env [] [] []
  | set {s rest out : List Char} {p : Placeholder} {met : List Placeholder} {v : String}
      (starts : Starts s p rest) (value : env (String.ofList p.name) = some v)
      (more : Reads env rest met out) : Reads env s (p :: met) (v.toList ++ out)
  | default {s rest out d : List Char} {p : Placeholder} {met : List Placeholder}
      (starts : Starts s p rest) (unset : env (String.ofList p.name) = none)
      (default : p.default? = some d) (more : Reads env rest met out) :
      Reads env s (p :: met) (d ++ out)
  | kept {text rest out : List Char} {p : Placeholder} {met : List Placeholder}
      (starts : Starts (text ++ rest) p rest) (unset : env (String.ofList p.name) = none)
      (bare : p.default? = none) (more : Reads env rest met out) :
      Reads env (text ++ rest) (p :: met) (text ++ out)
  | plain {c : Char} {rest out : List Char} {met : List Placeholder}
      (other : ∀ p after, ¬ Starts (c :: rest) p after) (more : Reads env rest met out) :
      Reads env (c :: rest) met (c :: out)

/-- The placeholder that a piece is. -/
def Piece.slot? : Piece → Option Placeholder
  | plain _ => none
  | slot p => some p

/-- The placeholders of a text, from left to right. -/
def slots (s : List Char) : List Placeholder := (cut s).filterMap Piece.slot?

variable {env : Environment} {s t name value rest after out : List Char} {p q : Placeholder}
  {met : List Placeholder} {c : Char}

/-! ## The search finds what the grammar tells -/

theorem takeWhile_append (hInside : ∀ d ∈ name, d ≠ '\x7d' ∧ d ≠ ':') (hc : isNameChar c = false) :
    (name ++ c :: rest).takeWhile isNameChar = name := by
  have hName : ∀ d ∈ name, isNameChar d = true := by simpa [isNameChar] using hInside
  rw [List.takeWhile_append_of_pos hName, List.takeWhile_cons_of_neg (by simp [hc]), List.append_nil]

theorem dropWhile_append (hInside : ∀ d ∈ name, d ≠ '\x7d' ∧ d ≠ ':') (hc : isNameChar c = false) :
    (name ++ c :: rest).dropWhile isNameChar = c :: rest := by
  have hName : ∀ d ∈ name, isNameChar d = true := by simpa [isNameChar] using hInside
  rw [List.dropWhile_append_of_pos hName, List.dropWhile_cons_of_neg (by simp [hc])]

theorem IsDefault.takeWhile_append (h : IsDefault value) :
    (value ++ '\x7d' :: rest).takeWhile (· ≠ '\x7d') = value := by
  have hInside : ∀ d ∈ value, decide (d ≠ '\x7d') = true := fun d hd =>
    decide_eq_true fun hEq => h.inside (hEq ▸ hd)
  rw [List.takeWhile_append_of_pos hInside, List.takeWhile_cons_of_neg (by simp), List.append_nil]

theorem Starts.eq_cons (h : Starts s p rest) : ∃ body, s = '$' :: '\x7b' :: body := by
  cases h <;> exact ⟨_, rfl⟩

theorem Starts.eq_text_append (h : Starts s p rest) : s = p.text ++ rest := by
  cases h <;> simp [text]

/-- What follows a placeholder does not matter to it. -/
theorem Starts.append (h : Starts s p rest) (more : List Char) : Starts (s ++ more) p (rest ++ more) := by
  cases h with
  | bare isName =>
    have hMore : Starts _ _ (rest ++ more) := .bare isName
    simpa using hMore
  | defaulted isName isDefault =>
    have hMore : Starts _ _ (rest ++ more) := .defaulted isName isDefault
    simpa using hMore

theorem Starts.ahead?_eq (h : Starts s p rest) : ahead? s = some p := by
  cases h with
  | bare isName =>
    simp only [ahead?, body?, takeWhile_append isName.inside (c := '\x7d') rfl,
      dropWhile_append isName.inside (c := '\x7d') rfl, isName.ne_nil, if_false]
  | defaulted isName isDefault =>
    simp only [ahead?, body?, takeWhile_append isName.inside (c := ':') rfl,
      dropWhile_append isName.inside (c := ':') rfl, isName.ne_nil, if_false, isDefault.takeWhile_append]
    rw [if_neg]
    simp [isDefault.ne_nil]

theorem starts_text_append (hName : IsName p.name)
    (hDefault : ∀ value, p.default? = some value → IsDefault value) (rest : List Char) :
    Starts (p.text ++ rest) p rest := by
  obtain ⟨name, default?⟩ := p
  cases default? with
  | none =>
    have hBare : Starts _ _ rest := .bare hName
    simpa [text] using hBare
  | some value =>
    have hDefaulted : Starts _ _ rest := .defaulted hName (hDefault value rfl)
    simpa [text] using hDefaulted

/-- What is found has the parts of a placeholder. -/
theorem parts_of_body? (h : body? s = some p) :
    IsName p.name ∧ ∀ value, p.default? = some value → IsDefault value := by
  simp only [body?] at h
  split at h
  · contradiction
  · rename_i hName
    have isName : IsName (s.takeWhile isNameChar) :=
      ⟨hName, fun c hc => by simpa [isNameChar] using List.mem_takeWhile_imp hc⟩
    split at h
    · split at h
      · contradiction
      · rename_i tail _ hShort
        simp only [Bool.or_eq_true, decide_eq_true_eq, not_or] at hShort
        cases h
        refine ⟨isName, fun value hValue => ?_⟩
        obtain rfl := Option.some.inj hValue
        exact ⟨hShort.1, fun hc => by simpa using List.mem_takeWhile_imp hc⟩
    · cases h
      refine ⟨isName, fun value hValue => ?_⟩
      contradiction
    · contradiction

theorem exists_starts_of_ahead? (h : ahead? s = some p) : ∃ rest, Starts s p rest := by
  obtain ⟨rest, hText⟩ := eq_text_append_of_ahead? h
  unfold ahead? at h
  split at h
  · obtain ⟨hName, hDefault⟩ := parts_of_body? h
    exact ⟨rest, hText ▸ starts_text_append hName hDefault rest⟩
  · contradiction

/-- The search finds exactly the placeholder that a text starts with. -/
theorem ahead?_eq_some_iff : ahead? s = some p ↔ ∃ rest, Starts s p rest :=
  ⟨exists_starts_of_ahead?, fun ⟨_, h⟩ => h.ahead?_eq⟩

theorem ahead?_eq_none_iff : ahead? s = none ↔ ∀ p after, ¬ Starts s p after := by
  rw [Option.eq_none_iff_forall_ne_some]
  simp only [ne_eq, ahead?_eq_some_iff, not_exists]

/-- A text starts with one placeholder at most. -/
theorem Starts.unique (h : Starts s p rest) (h' : Starts s q after) : p = q ∧ rest = after := by
  obtain rfl : p = q := Option.some.inj (h.ahead?_eq.symm.trans h'.ahead?_eq)
  exact ⟨rfl, List.append_cancel_left (h.eq_text_append.symm.trans h'.eq_text_append)⟩

/-! ## Filling, step by step -/

theorem cutFrom_append (t rest : List Char) : cutFrom t.length (t ++ rest) = cut rest := by
  induction t with
  | nil => rfl
  | cons c t ih => exact ih

theorem Starts.cut_eq (h : Starts s p rest) : cut s = .slot p :: cut rest := by
  obtain ⟨t, hText⟩ : ∃ t, p.text = '$' :: t := ⟨_, rfl⟩
  have hAhead := h.ahead?_eq
  rw [h.eq_text_append, hText, List.cons_append] at hAhead ⊢
  rw [cut, cutFrom, hAhead]
  show Piece.slot p :: cutFrom (p.text.length - 1) (t ++ rest) = _
  rw [hText]
  exact congrArg _ (cutFrom_append t rest)

theorem cut_cons_of_not_starts (h : ∀ p after, ¬ Starts (c :: rest) p after) :
    cut (c :: rest) = .plain c :: cut rest := by
  rw [cut, cutFrom, ahead?_eq_none_iff.2 h]
  rfl

theorem Starts.slots_eq (h : Starts s p rest) : slots s = p :: slots rest := by
  rw [slots, h.cut_eq]
  rfl

theorem Starts.fill_eq (h : Starts s p rest) : fill env s = p.value env ++ fill env rest := by
  rw [fill, h.cut_eq]
  rfl

theorem slots_cons_of_not_starts (h : ∀ p after, ¬ Starts (c :: rest) p after) :
    slots (c :: rest) = slots rest := by
  rw [slots, cut_cons_of_not_starts h]
  rfl

theorem fill_cons_of_not_starts (h : ∀ p after, ¬ Starts (c :: rest) p after) :
    fill env (c :: rest) = c :: fill env rest := by
  rw [fill, cut_cons_of_not_starts h]
  rfl

/-- What follows a placeholder is shorter than the text. -/
theorem Starts.length_lt (h : Starts s p rest) : rest.length < s.length := by
  rw [h.eq_text_append, List.length_append]
  simp [text]

/-- To go through a text is to go on behind each placeholder and, where there is none, behind each
character. -/
theorem reading_induction {motive : List Char → Prop} (nothing : motive [])
    (slot : ∀ s p rest, Starts s p rest → motive rest → motive s)
    (plain : ∀ c rest, (∀ p after, ¬ Starts (c :: rest) p after) → motive rest → motive (c :: rest))
    (s : List Char) : motive s := by
  induction hLength : s.length using Nat.strong_induction_on generalizing s with
  | _ n ih =>
    subst hLength
    cases s with
    | nil => exact nothing
    | cons c rest =>
      by_cases hStarts : ∃ p after, Starts (c :: rest) p after
      · obtain ⟨p, after, h⟩ := hStarts
        exact slot _ p after h (ih _ h.length_lt after rfl)
      · push Not at hStarts
        exact plain c rest hStarts (ih _ (Nat.lt_succ_self _) rest rfl)

/-! ## The pass -/

theorem reads_fill (env : Environment) (s : List Char) : Reads env s (slots s) (fill env s) := by
  induction s using reading_induction with
  | nothing => exact .nothing
  | plain c rest hNone ih =>
    rw [slots_cons_of_not_starts hNone, fill_cons_of_not_starts hNone]
    exact .plain hNone ih
  | slot s p rest hStarts ih =>
    rw [hStarts.slots_eq, hStarts.fill_eq]
    cases hValue : env (String.ofList p.name) with
    | some v =>
      rw [show p.value env = v.toList by simp only [Placeholder.value, hValue]]
      exact .set hStarts hValue ih
    | none =>
      cases hDefault : p.default? with
      | some d =>
        rw [show p.value env = d by simp only [Placeholder.value, hValue, hDefault]]
        exact .default hStarts hValue hDefault ih
      | none =>
        rw [value_of_isOpen ⟨hValue, hDefault⟩]
        have hText := hStarts.eq_text_append
        subst hText
        exact .kept hStarts hValue hDefault ih

theorem Reads.eq (h : Reads env s met out) : met = slots s ∧ out = fill env s := by
  induction h with
  | nothing => exact ⟨rfl, rfl⟩
  | set starts value more ih =>
    rw [starts.slots_eq, starts.fill_eq, ← ih.1, ← ih.2]
    simp only [Placeholder.value, value, and_self]
  | default starts unset default more ih =>
    rw [starts.slots_eq, starts.fill_eq, ← ih.1, ← ih.2]
    simp only [Placeholder.value, unset, default, and_self]
  | kept starts unset bare more ih =>
    rw [starts.slots_eq, starts.fill_eq, ← ih.1, ← ih.2, value_of_isOpen ⟨unset, bare⟩,
      List.append_cancel_right starts.eq_text_append]
    exact ⟨rfl, rfl⟩
  | plain other more ih =>
    rw [slots_cons_of_not_starts other, fill_cons_of_not_starts other, ← ih.1, ← ih.2]
    exact ⟨rfl, rfl⟩

/-- Filling is the pass over the text. -/
theorem reads_iff : Reads env s met out ↔ met = slots s ∧ out = fill env s :=
  ⟨Reads.eq, by rintro ⟨rfl, rfl⟩; exact reads_fill env s⟩

/-! ## What is nearly a placeholder -/

/-- What looks like a placeholder but lacks its name, its default or the dash before the default. -/
inductive Malformed : List Char → Prop
  | nameless : Malformed ['$', '\x7b', '\x7d']
  | valueless {name : List Char} (isName : IsName name) :
      Malformed ('$' :: '\x7b' :: (name ++ [':', '-', '\x7d']))
  | undashed {name value : List Char} (isName : IsName name) (dash : value.head? ≠ some '-')
      (plain : '$' ∉ value) : Malformed ('$' :: '\x7b' :: (name ++ ':' :: (value ++ ['\x7d'])))

theorem not_starts_of_ne (h : c ≠ '$') (p : Placeholder) (after : List Char) :
    ¬ Starts (c :: rest) p after := by
  intro hStarts
  obtain ⟨body, hText⟩ := hStarts.eq_cons
  exact h (List.cons.inj hText).1

theorem fill_append_of_notMem (h : '$' ∉ t) (rest : List Char) :
    fill env (t ++ rest) = t ++ fill env rest := by
  induction t with
  | nil => rfl
  | cons c t ih =>
    rw [List.mem_cons, not_or] at h
    rw [List.cons_append, fill_cons_of_not_starts (not_starts_of_ne fun hEq => h.1 hEq.symm), ih h.2]
    rfl

/-- A colon behind a name has to be followed by a dash and a default. -/
theorem Starts.colon (hInside : ∀ d ∈ name, d ≠ '\x7d' ∧ d ≠ ':')
    (h : Starts ('$' :: '\x7b' :: (name ++ ':' :: t)) p after) :
    ∃ value, IsDefault value ∧ t = '-' :: (value ++ '\x7d' :: after) := by
  -- where the name ends is told by the text, so both readings of it end at the same place
  have hEnd : (name ++ ':' :: t).dropWhile isNameChar = ':' :: t := dropWhile_append hInside rfl
  generalize hText : name ++ ':' :: t = body at h hEnd
  cases h with
  | bare isName =>
    rw [dropWhile_append isName.inside rfl] at hEnd
    simp at hEnd
  | @defaulted _ value _ isName isDefault =>
    rw [dropWhile_append isName.inside rfl] at hEnd
    exact ⟨value, isDefault, (List.cons.inj hEnd).2.symm⟩

theorem fill_name_append (hInside : ∀ d ∈ name, d ≠ '\x7d' ∧ d ≠ ':')
    (hNone : ∀ value after, IsDefault value → t ≠ '-' :: (value ++ '\x7d' :: after)) :
    fill env (name ++ ':' :: t) = name ++ ':' :: fill env t := by
  induction name with
  | nil => exact fill_cons_of_not_starts (not_starts_of_ne (by decide))
  | cons c name ih =>
    have hRest := fun d hd => hInside d (List.mem_cons_of_mem c hd)
    rw [List.cons_append, fill_cons_of_not_starts ?_, ih hRest]
    · rfl
    · intro p after hStarts
      -- a placeholder that starts here has its name among these characters
      obtain ⟨body, hText⟩ := hStarts.eq_cons
      cases name with
      | nil => simp at hText
      | cons b name =>
        simp only [List.cons_append, List.cons.injEq] at hText
        obtain ⟨rfl, rfl, -⟩ := hText
        obtain ⟨value, isDefault, hColon⟩ :=
          Starts.colon (fun d hd => hRest d (List.mem_cons_of_mem _ hd)) hStarts
        exact hNone value after isDefault hColon

theorem not_starts_nameless (p : Placeholder) (after : List Char) :
    ¬ Starts ('$' :: '\x7b' :: '\x7d' :: rest) p after := by
  intro hStarts
  have hAhead := hStarts.ahead?_eq
  simp [ahead?, body?, isNameChar] at hAhead

/-- If no default follows the colon behind a name, all up to there is copied. -/
theorem fill_colon_append (isName : IsName name) (hPlain : '$' ∉ t)
    (hNone : ∀ value after, IsDefault value → t ++ rest ≠ '-' :: (value ++ '\x7d' :: after)) :
    fill env ('$' :: '\x7b' :: (name ++ ':' :: t) ++ rest) =
      '$' :: '\x7b' :: (name ++ ':' :: t) ++ fill env rest := by
  have hOpening : ∀ d ∈ '$' :: '\x7b' :: name, d ≠ '\x7d' ∧ d ≠ ':' := by
    simpa using isName.inside
  have hCopied : fill env _ = _ := fill_name_append hOpening hNone
  rw [fill_append_of_notMem hPlain] at hCopied
  simpa using hCopied

/-- What lacks its name, its default or the dash before the default is copied. -/
theorem fill_malformed_append (h : Malformed t) (rest : List Char) :
    fill env (t ++ rest) = t ++ fill env rest := by
  cases h with
  | nameless =>
    rw [List.cons_append, List.cons_append, List.cons_append,
      fill_cons_of_not_starts not_starts_nameless]
    exact congrArg _ (fill_append_of_notMem (t := ['\x7b', '\x7d']) (by decide) rest)
  | valueless isName =>
    refine fill_colon_append isName (t := ['-', '\x7d']) (by decide) fun value after isDefault hText => ?_
    -- a default would start with a brace
    cases value with
    | nil => exact isDefault.ne_nil rfl
    | cons d value =>
      obtain rfl : '\x7d' = d := by simpa using (List.cons.inj (List.cons.inj hText).2).1
      exact isDefault.inside List.mem_cons_self
  | @undashed name value isName dash plain =>
    refine fill_colon_append isName (by simpa using plain) fun value' after isDefault hText => ?_
    cases value with
    | nil => simp at hText
    | cons d value => exact dash (congrArg some (List.cons.inj hText).1)

/-! ## What is not closed -/

theorem Starts.parts (h : Starts s p rest) :
    IsName p.name ∧ ∀ value, p.default? = some value → IsDefault value := by
  cases h with
  | bare isName => exact ⟨isName, fun _ hValue => nomatch hValue⟩
  | defaulted isName isDefault => exact ⟨isName, fun _ hValue => Option.some.inj hValue ▸ isDefault⟩

/-- A placeholder that starts before a text without a closing brace ends before it. -/
theorem Starts.of_append (h : Starts (s ++ t) p after) (hOpen : '\x7d' ∉ t) :
    ∃ rest, Starts s p rest := by
  obtain ⟨hName, hDefault⟩ := h.parts
  rcases List.append_eq_append_iff.1 h.eq_text_append with ⟨beyond, hText, hRest⟩ | ⟨rest, hText, -⟩
  · -- nothing of the placeholder is beyond, since it would end there
    have hBeyond : beyond = [] := by
      by_contra hNe
      have hLast : p.text.getLast? = some '\x7d' := by
        rw [text, ← List.cons_append, ← List.cons_append, List.getLast?_concat]
      rw [hText, List.getLast?_append_of_ne_nil _ hNe] at hLast
      exact hOpen (hRest ▸ List.mem_append_left _ (List.mem_of_getLast? hLast))
    rw [hBeyond, List.append_nil] at hText
    refine ⟨[], ?_⟩
    have hStarts := starts_text_append hName hDefault []
    rwa [List.append_nil, hText] at hStarts
  · exact ⟨rest, hText ▸ starts_text_append hName hDefault rest⟩

/-- What is not closed is copied. -/
theorem fill_append_unclosed (s : List Char) (h : '\x7d' ∉ t) : fill env (s ++ t) = fill env s ++ t := by
  induction s using reading_induction with
  | nothing =>
    induction t with
    | nil => rfl
    | cons c t ih =>
      rw [List.mem_cons, not_or] at h
      have hNone (p : Placeholder) (after : List Char) : ¬ Starts (c :: t) p after := by
        intro hStarts
        have hStarts : Starts ([] ++ c :: t) p after := hStarts
        obtain ⟨rest, hNil⟩ := hStarts.of_append (by simpa using h)
        obtain ⟨body, hText⟩ := hNil.eq_cons
        contradiction
      rw [List.nil_append, fill_cons_of_not_starts hNone]
      exact congrArg _ (ih h.2)
  | slot s p rest hStarts ih =>
    rw [(hStarts.append t).fill_eq, hStarts.fill_eq, ih, List.append_assoc]
  | plain c rest hNone ih =>
    have hNone' (p : Placeholder) (after : List Char) : ¬ Starts (c :: rest ++ t) p after := by
      intro hStarts
      obtain ⟨rest', hStarts'⟩ := hStarts.of_append h
      exact hNone p rest' hStarts'
    rw [List.cons_append] at hNone' ⊢
    rw [fill_cons_of_not_starts hNone', fill_cons_of_not_starts hNone, ih, List.cons_append]

/-! ## The pass, its steps and what they leave alone -/

theorem mem_slots_iff : p ∈ slots s ↔ Piece.slot p ∈ cut s := by
  rw [slots, List.mem_filterMap]
  constructor
  · rintro ⟨piece, hPiece, hSlot⟩
    cases piece with
    | plain c => contradiction
    | slot q => exact Option.some.inj hSlot ▸ hPiece
  · exact fun h => ⟨_, h, rfl⟩

/-- Filling is one pass from left to right, and the only one there is: the placeholder that a text starts
with is unique, what is nearly a placeholder is copied, and so is a text none of whose placeholders is
known. -/
theorem fill_is_one_pass (env : Environment) (s : List Char) :
    (∀ met out, Reads env s met out ↔ met = slots s ∧ out = fill env s) ∧
      (∀ t p q rest after, Starts t p rest → Starts t q after → p = q ∧ rest = after) ∧
      (∀ near, Malformed near → fill env (near ++ s) = near ++ fill env s) ∧
      (∀ unclosed, '\x7d' ∉ unclosed → fill env (s ++ unclosed) = fill env s ++ unclosed) ∧
      ((∀ p ∈ slots s, p.default? = none ∧ env (String.ofList p.name) = none) → fill env s = s) := by
  refine ⟨fun met out => reads_iff, fun t p q rest after h h' => h.unique h', fun near h => ?_,
    fun unclosed h => fill_append_unclosed s h, fun hOpen => ?_⟩
  · exact fill_malformed_append h s
  · exact fill_eq_self_of_isOpen fun p hp => (hOpen p (mem_slots_iff.2 hp)).symm

/-- One variable, whose value looks like a placeholder. -/
def bracedValue : Environment := fun name => if name = "A" then some "$\x7bB\x7d" else none

/-- A placeholder, one with a colon and an opening in its default, and one with an opening in its name. -/
def nestedText : List Char := "$\x7bA\x7d$\x7bU:-x:$\x7by\x7d$\x7bC$\x7bA\x7d".toList

/-- What is put out for a placeholder is not read again, and openings in defaults and names decide where the
pass goes on. -/
theorem fill_is_one_pass_nested :
    Reads bracedValue nestedText
        [⟨['A'], none⟩, ⟨['U'], some ['x', ':', '$', '\x7b', 'y']⟩, ⟨['C', '$', '\x7b', 'A'], none⟩]
        "$\x7bB\x7dx:$\x7by$\x7bC$\x7bA\x7d".toList ∧
      (∀ q after, Starts nestedText q after → q = ⟨['A'], none⟩) ∧
      fill bracedValue ("$\x7bA:-\x7d".toList ++ nestedText) =
        "$\x7bA:-\x7d".toList ++ fill bracedValue nestedText ∧
      fill bracedValue (nestedText ++ "$\x7bA".toList) =
        fill bracedValue nestedText ++ "$\x7bA".toList ∧
      fill bracedValue "$\x7bZ\x7d".toList = "$\x7bZ\x7d".toList := by
  have hPass := fill_is_one_pass bracedValue nestedText
  have isName : IsName ['A'] := ⟨by simp, by simp⟩
  refine ⟨(hPass.1 _ _).2 ⟨by decide, by decide⟩, fun q after h => ?_, ?_, ?_, ?_⟩
  · exact (hPass.2.1 nestedText q _ _ _ h (.bare isName)).1
  · exact hPass.2.2.1 _ (.valueless isName)
  · exact hPass.2.2.2.1 _ (by decide)
  · exact (fill_is_one_pass bracedValue _).2.2.2.2 (by decide)

end Placeholder

end ReplicatedStore
