import ReplicatedStore.Deflate.Token

/-!
# Tokens stand for their payload

Whatever the table of recent places holds, the tokens that `Token.tokenize` finds expand to the
payload they were found in, and each of them states a length and a distance that a block can write.

The invariant of the walk over the payload is that the tokens found from place `i` on complete the
first `i` octets to the whole payload.

Main results:

* `copyBack_extract` — a copy whose octets agree extends a prefix of the payload to a longer one.
* `expandAll?_tokenize` — the tokens of a payload expand to it.
* `fits_of_mem_tokenize` — each token of a payload can be written.
-/

namespace ReplicatedStore.Token

/-- What a row of tokens makes of the octets before it. -/
def expandAll? (out : Array UInt8) : List Token → Option (Array UInt8)
  | [] => some out
  | t :: rest =>
    match expand? out t with
    | none => none
    | some out => expandAll? out rest

/-- Whether the classes of lengths and distances reach a token. -/
def Fits : Token → Prop
  | literal _ => True
  | copy length distance =>
    (minCopy ≤ length ∧ length ≤ maxCopy) ∧ 1 ≤ distance ∧ distance ≤ maxDistance

/-! ## Octets that agree -/

theorem agreement_le (data : Array UInt8) (i j limit : Nat) :
    agreement data i j limit ≤ limit := by
  induction limit generalizing i j with
  | zero => simp [agreement]
  | succ limit ih =>
    have := ih (i + 1) (j + 1)
    unfold agreement
    split <;> omega

/-- The octets that agree lie inside the payload. -/
theorem add_agreement_le {data : Array UInt8} {i : Nat} (j limit : Nat) (hi : i ≤ data.size) :
    i + agreement data i j limit ≤ data.size := by
  induction limit generalizing i j with
  | zero => simpa [agreement] using hi
  | succ limit ih =>
    unfold agreement
    split
    · rename_i h
      have := ih (j + 1) (show i + 1 ≤ data.size from h.1)
      omega
    · simpa using hi

theorem getD_add_of_lt_agreement {data : Array UInt8} {i j limit k : Nat}
    (h : k < agreement data i j limit) : data.getD (i + k) 0 = data.getD (j + k) 0 := by
  induction limit generalizing i j k with
  | zero => simp [agreement] at h
  | succ limit ih =>
    unfold agreement at h
    split at h
    · rename_i hHere
      cases k with
      | zero => exact hHere.2
      | succ k =>
        have := ih (i := i + 1) (j := j + 1) (k := k) (by omega)
        rw [show i + (k + 1) = i + 1 + k by omega, show j + (k + 1) = j + 1 + k by omega]
        exact this
    · omega

/-! ## Expansion -/

/-- The next octet extends a prefix of the payload. -/
theorem push_extract {data : Array UInt8} {i : Nat} (hi : i < data.size) :
    (data.extract 0 i).push data[i] = data.extract 0 (i + 1) := by
  rw [Array.push_extract_getElem hi, Nat.min_eq_left (Nat.zero_le i)]

/-- A copy whose octets agree extends a prefix of the payload by the octets copied. -/
theorem copyBack_extract {data : Array UInt8} {i j n : Nat} (hj : j < i) (hn : i + n ≤ data.size)
    (hAgree : ∀ k < n, data.getD (i + k) 0 = data.getD (j + k) 0) :
    copyBack (data.extract 0 i) (i - j) n = data.extract 0 (i + n) := by
  induction n generalizing i j with
  | zero => rfl
  | succ n ih =>
    have hi : i < data.size := by omega
    have hSize : (data.extract 0 i).size = i := by
      rw [Array.size_extract]
      omega
    -- the octet that is copied next is the next one of the payload
    have hNext : (data.extract 0 i).getD ((data.extract 0 i).size - (i - j)) 0 = data[i] := by
      rw [hSize, show i - (i - j) = j by omega]
      have hHere := hAgree 0 (by omega)
      simp only [Nat.add_zero] at hHere
      rw [show data[i] = data.getD i 0 by simp [Array.getD, hi], hHere]
      simp [Array.getD, hSize, hj, show j < data.size by omega]
    rw [copyBack, hNext, push_extract hi, show i - j = i + 1 - (j + 1) by omega,
      ih (by omega) (by omega) ?_]
    · congr 1
      omega
    · intro k hk
      have := hAgree (k + 1) (by omega)
      rw [show i + 1 + k = i + (k + 1) by omega, show j + 1 + k = j + (k + 1) by omega]
      exact this

/-! ## Finding tokens -/

/-- The tokens found from a place on complete what is before it to the whole payload. -/
theorem tokenizeFrom_eq_append {data : Array UInt8} (table : Array Nat) (out : Array Token)
    {i : Nat} (hi : i ≤ data.size) :
    ∃ tokens, (tokenizeFrom data table out i).toList = out.toList ++ tokens ∧
      (∀ t ∈ tokens, t.Fits) ∧ expandAll? (data.extract 0 i) tokens = some data := by
  -- on the search: a copy that was accepted, a literal, and the end of the payload
  fun_induction tokenizeFrom data table out i with
  | case1 table out i hLt slot hint length hc ih =>
    obtain ⟨hBehind, hNear, rfl, hMin⟩ := copyAt?_spec hc
    have hEnd := add_agreement_le hint maxCopy hi
    obtain ⟨tokens, hTokens, hFits, hExpand⟩ := ih hEnd
    refine ⟨.copy (agreement data i hint maxCopy) (i - hint) :: tokens, ?_, ?_, ?_⟩
    · rw [hTokens]
      simp
    · intro t ht
      rcases List.mem_cons.1 ht with rfl | ht
      · exact ⟨⟨hMin, agreement_le ..⟩, by omega, hNear⟩
      · exact hFits t ht
    · have hSize : ¬ (data.extract 0 i).size < i - hint := by
        rw [Array.size_extract]
        omega
      rw [expandAll?, expand?, if_neg hSize]
      rw [copyBack_extract hBehind hEnd fun k hk => getD_add_of_lt_agreement hk]
      exact hExpand
  | case2 table out i hLt slot hint hc ih =>
    obtain ⟨tokens, hTokens, hFits, hExpand⟩ := ih hLt
    refine ⟨.literal data[i] :: tokens, ?_, ?_, ?_⟩
    · rw [hTokens]
      simp
    · intro t ht
      rcases List.mem_cons.1 ht with rfl | ht
      · trivial
      · exact hFits t ht
    · rw [expandAll?, expand?, push_extract hLt]
      exact hExpand
  | case3 table out i hGe =>
    obtain rfl : i = data.size := by omega
    exact ⟨[], by simp, by simp, by simp [expandAll?]⟩

theorem expandAll?_tokenize (data : Bytes) :
    expandAll? #[] (tokenize data) = some data.toArray := by
  obtain ⟨tokens, hTokens, -, hExpand⟩ :=
    tokenizeFrom_eq_append (Array.replicate slots data.toArray.size) #[] (Nat.zero_le _)
  rw [tokenize, hTokens]
  simpa using hExpand

theorem fits_of_mem_tokenize {data : Bytes} {t : Token} (h : t ∈ tokenize data) : t.Fits := by
  have hStart : 0 ≤ data.toArray.size := Nat.zero_le _
  obtain ⟨tokens, hTokens, hFits, -⟩ :=
    tokenizeFrom_eq_append (Array.replicate slots data.toArray.size) #[] hStart
  rw [tokenize, hTokens] at h
  exact hFits t (by simpa using h)

end ReplicatedStore.Token
