import Mathlib.Algebra.Ring.Nat
import Mathlib.Data.List.Chain
import ReplicatedStore.Gzip
import ReplicatedStore.Proofs.Compression.Tokens

/-!
# A compressed block is read back

A payload that was written as one block with the fixed codes is read back from its bits, and whatever
stands behind the block is left over. The steps follow the format from the inside out:

* bits that were packed into octets are the first bits of those octets;
* in the tree of a code each word leads to its symbol, and each number has its class;
* the bits of a row of tokens are read back as what the tokens expand to.

Main results:

* `Bits.ofBytes_toBytes` — packed bits come back, followed by zeros.
* `Deflate.readTokens_flatMap_tokenBits` — written tokens are read back.
* `Deflate.expand?_fixedBlock` — the block of a payload.
-/

namespace ReplicatedStore

/-! ## Bits and octets -/

namespace Bits

theorem ofNat_zero (width : Nat) : ofNat width 0 = List.replicate width false := by
  induction width with
  | zero => rfl
  | succ width ih => simp [ofNat, ih, List.replicate_succ]

/-- Only the low bits of a number are written. -/
theorem ofNat_mod (width n : Nat) : ofNat width (n % 2 ^ width) = ofNat width n := by
  induction width generalizing n with
  | zero => rfl
  | succ width ih =>
    have hLow : n % 2 ^ (width + 1) % 2 = n % 2 :=
      Nat.mod_mod_of_dvd n (Nat.pow_succ' ▸ Nat.dvd_mul_right 2 (2 ^ width))
    have hHigh : n % 2 ^ (width + 1) / 2 = n / 2 % 2 ^ width := by
      rw [Nat.pow_succ', Nat.mod_mul_right_div_self]
    rw [ofNat, ofNat, hLow, hHigh, ih]

/-- Bits are the low bits of the number they write. -/
theorem ofNat_toNat {bits : Bits} {width : Nat} (h : bits.length ≤ width) :
    ofNat width (toNat bits) = bits ++ List.replicate (width - bits.length) false := by
  induction bits generalizing width with
  | nil => simp [toNat, ofNat_zero]
  | cons b rest ih =>
    obtain ⟨width, rfl⟩ : ∃ w, width = w + 1 := ⟨width - 1, by simp at h; omega⟩
    have hRest : ofNat width (toNat rest) = rest ++ List.replicate (width - rest.length) false :=
      ih (by simpa using h)
    have hHalf : (b.toNat + 2 * toNat rest) / 2 = toNat rest := by
      cases b <;> simp; omega
    have hBit : ((b.toNat + 2 * toNat rest) % 2 == 1) = b := by
      cases b <;> simp
    rw [toNat, ofNat, hHalf, hBit, hRest]
    simp

theorem toNat_lt (bits : Bits) : toNat bits < 2 ^ bits.length := by
  induction bits with
  | nil => simp [toNat]
  | cons b rest ih =>
    rw [toNat, List.length_cons, Nat.pow_succ]
    cases b <;> simp <;> omega

theorem ofBytes_append (a b : Bytes) : ofBytes (a ++ b) = ofBytes a ++ ofBytes b := by
  simp [ofBytes]

/-- How many zeros fill the last octet of `n` bits. -/
def padding (n : Nat) : Nat := (8 - n % 8) % 8

theorem ofBytes_packInto (out : Array UInt8) (bits : Bits) :
    ofBytes (packInto out bits).toList =
      ofBytes out.toList ++ bits ++ List.replicate (padding bits.length) false := by
  fun_induction packInto out bits with
  | case1 out => simp [padding]
  | case2 out b rest ih =>
    -- the octet that is filled next holds the first eight bits, or all that are left
    have hShort : (b :: rest.take 7).length ≤ 8 := by
      rw [List.length_cons, List.length_take]
      omega
    have hOctet : (UInt8.ofNat (toNat (b :: rest.take 7))).toNat = toNat (b :: rest.take 7) := by
      have := toNat_lt (b :: rest.take 7)
      have : 2 ^ (b :: rest.take 7).length ≤ 2 ^ 8 := Nat.pow_le_pow_right (by omega) hShort
      rw [UInt8.toNat_ofNat']
      omega
    have hBits : ofBytes [UInt8.ofNat (toNat (b :: rest.take 7))] =
        b :: rest.take 7 ++ List.replicate (8 - (b :: rest.take 7).length) false := by
      rw [ofBytes, List.flatMap_cons, List.flatMap_nil, List.append_nil, hOctet, ofNat_toNat hShort]
    rw [ih, Array.toList_push, ofBytes_append, hBits]
    by_cases hLong : 7 ≤ rest.length
    · have hPad : padding (rest.drop 7).length = padding (b :: rest).length := by
        rw [List.length_drop, List.length_cons, padding, padding]
        omega
      rw [hPad]
      simp [Nat.min_eq_left hLong]
    · have hAll : rest.take 7 = rest := List.take_of_length_le (by omega)
      have hNone : rest.drop 7 = [] := List.drop_eq_nil_of_le (by omega)
      have hPad : padding (b :: rest).length = 8 - (b :: rest).length := by
        rw [List.length_cons, padding]
        omega
      rw [hAll, hNone, hPad]
      simp [padding]

theorem ofBytes_toBytes (bits : Bits) :
    ofBytes (toBytes bits) = bits ++ List.replicate (padding bits.length) false := by
  rw [toBytes, ofBytes_packInto]
  rfl

/-- What fills the last octet is dropped when reading goes on at the next one. -/
theorem align_replicate_append {n : Nat} (hn : n < 8) (b : Bytes) :
    align (List.replicate n false ++ ofBytes b) = ofBytes b := by
  have hLength : (List.replicate n false ++ ofBytes b).length % 8 = n := by
    simp only [List.length_append, List.length_replicate, length_ofBytes]
    omega
  rw [align, hLength]
  simp

/-- The bits of a little-endian number in octets are the bits of the number. -/
theorem ofBytes_toLE (width n : Nat) : ofBytes (Bytes.toLE width n) = ofNat (8 * width) n := by
  induction width generalizing n with
  | zero => rfl
  | succ width ih =>
    have hSplit (w m : Nat) : ofNat (w + 8) m = ofNat 8 m ++ ofNat w (m / 256) := by
      simp [ofNat, Nat.div_div_eq_div_mul]
    rw [Bytes.toLE, show ofBytes (UInt8.ofNat n :: Bytes.toLE width (n / 256)) =
      ofNat 8 (UInt8.ofNat n).toNat ++ ofBytes (Bytes.toLE width (n / 256)) from rfl, ih,
      Nat.mul_succ, hSplit (8 * width) n, UInt8.toNat_ofNat', ofNat_mod]

end Bits

/-! ## Classes of numbers -/

namespace Alphabet

theorem isSome_classFrom? {n : Nat} (index : Nat) {classes : List NumberClass} {c : NumberClass}
    (hc : c ∈ classes) (hLow : c.base ≤ n) (hHigh : n < c.base + (1 <<< c.extra)) :
    (classFrom? n index classes).isSome := by
  induction classes generalizing index with
  | nil => simp at hc
  | cons d rest ih =>
    rw [classFrom?]
    split
    · rfl
    · rename_i hNone
      rcases List.mem_cons.1 hc with rfl | hRest
      · rw [if_pos ⟨hLow, by omega⟩]
        rfl
      · have := ih (index + 1) hRest
        simp [hNone] at this

/-- Each class starts where the one before it ends, or earlier. -/
def Seamless (classes : List NumberClass) : Prop :=
  List.IsChain (fun c d => d.base ≤ c.base + (1 <<< c.extra)) classes

instance (classes : List NumberClass) : Decidable (Seamless classes) :=
  inferInstanceAs (Decidable (List.IsChain _ _))

theorem exists_mem_of_seamless {first : NumberClass} {rest : List NumberClass}
    (hSeamless : Seamless (first :: rest)) {last : NumberClass}
    (hLast : (first :: rest).getLast? = some last) {n : Nat} (hLow : first.base ≤ n)
    (hHigh : n < last.base + (1 <<< last.extra)) :
    ∃ c ∈ first :: rest, c.base ≤ n ∧ n < c.base + (1 <<< c.extra) := by
  induction rest generalizing first with
  | nil =>
    obtain rfl : first = last := by simpa using hLast
    exact ⟨first, by simp, hLow, hHigh⟩
  | cons second rest ih =>
    by_cases hHere : n < first.base + (1 <<< first.extra)
    · exact ⟨first, by simp, hLow, hHere⟩
    · obtain ⟨hNext, hSeamless⟩ := List.isChain_cons_cons.1 hSeamless
      obtain ⟨c, hc, hSpan⟩ := ih hSeamless (by simpa using hLast) (by omega)
      exact ⟨c, List.mem_cons_of_mem _ hc, hSpan⟩

/-- Every number within the reach of a seamless row of classes has a class. -/
theorem exists_classOf? {first : NumberClass} {rest : List NumberClass}
    (hSeamless : Seamless (first :: rest)) {last : NumberClass}
    (hLast : (first :: rest).getLast? = some last) {n : Nat} (hLow : first.base ≤ n)
    (hHigh : n < last.base + (1 <<< last.extra)) :
    ∃ place c, classOf? (first :: rest) n = some (place, c) := by
  obtain ⟨c, hc, hBase, hSpan⟩ := exists_mem_of_seamless hSeamless hLast hLow hHigh
  obtain ⟨found, hFound⟩ := Option.isSome_iff_exists.1 (isSome_classFrom? 0 hc hBase hSpan)
  exact ⟨found.1, found.2, hFound⟩

theorem exists_lengthClass {n : Nat} (hLow : Token.minCopy ≤ n) (hHigh : n ≤ Token.maxCopy) :
    ∃ place c, classOf? lengthClasses n = some (place, c) := by
  unfold Token.minCopy at hLow
  unfold Token.maxCopy at hHigh
  exact exists_classOf? (by decide) rfl hLow (Nat.lt_succ_of_le hHigh)

theorem exists_distanceClass {n : Nat} (hLow : 1 ≤ n) (hHigh : n ≤ Token.maxDistance) :
    ∃ place c, classOf? distanceClasses n = some (place, c) := by
  unfold Token.maxDistance at hHigh
  exact exists_classOf? (by decide) rfl hLow (Nat.lt_succ_of_le hHigh)

end Alphabet

/-! ## Words of a code -/

namespace PrefixTree

theorem read_insert?_self {symbol : Nat} {word : Bits} {t grown : PrefixTree}
    (h : t.insert? symbol word = some grown) : grown.read word = some (symbol, []) := by
  -- on the word: each bit leads into one half of a fork
  induction word generalizing t grown with
  | nil =>
    cases t with
    | vacant =>
      obtain rfl : leaf symbol = grown := by simpa [insert?] using h
      rfl
    | leaf s => simp [insert?] at h
    | fork zero one => simp [insert?] at h
  | cons b word ih =>
    cases t with
    | vacant =>
      obtain ⟨u, hu, rfl⟩ := Option.map_eq_some_iff.1 h
      cases b <;> exact ih hu
    | leaf s => simp [insert?] at h
    | fork zero one =>
      rw [insert?] at h
      cases b with
      | false =>
        obtain ⟨u, hu, rfl⟩ := Option.map_eq_some_iff.1 h
        exact ih hu
      | true =>
        obtain ⟨u, hu, rfl⟩ := Option.map_eq_some_iff.1 h
        exact ih hu

/-- A new word does not come in the way of those that are there. -/
theorem read_insert?_of_read {symbol s : Nat} {word other : Bits} {t grown : PrefixTree}
    (h : t.insert? symbol word = some grown) (hRead : t.read other = some (s, [])) :
    grown.read other = some (s, []) := by
  -- the words go the same way for a while, and the one half that grows is all that changes
  induction word generalizing t grown other with
  | nil =>
    cases t with
    | vacant => simp [read] at hRead
    | leaf s => simp [insert?] at h
    | fork zero one => simp [insert?] at h
  | cons b word ih =>
    cases t with
    | vacant => simp [read] at hRead
    | leaf s => simp [insert?] at h
    | fork zero one =>
      rw [insert?] at h
      cases other with
      | nil => simp [read] at hRead
      | cons c other =>
        cases b with
        | false =>
          rw [if_neg Bool.false_ne_true] at h
          obtain ⟨u, hu, rfl⟩ := Option.map_eq_some_iff.1 h
          cases c with
          | false =>
            show u.read other = some (s, [])
            exact ih hu hRead
          | true => exact hRead
        | true =>
          rw [if_pos rfl] at h
          obtain ⟨u, hu, rfl⟩ := Option.map_eq_some_iff.1 h
          cases c with
          | false => exact hRead
          | true =>
            show u.read other = some (s, [])
            exact ih hu hRead

/-- In a tree grown from words, each of them leads to its symbol. -/
theorem read_of_foldlM_insert? {words : List (Nat × Bits)} {t grown : PrefixTree}
    (h : words.foldlM (fun t (symbol, word) => t.insert? symbol word) t = some grown)
    {symbol : Nat} {word : Bits}
    (hWord : (symbol, word) ∈ words ∨ t.read word = some (symbol, [])) :
    grown.read word = some (symbol, []) := by
  induction words generalizing t with
  | nil =>
    obtain rfl : t = grown := by simpa using h
    simpa using hWord
  | cons first words ih =>
    rw [List.foldlM_cons] at h
    obtain ⟨u, hu, h⟩ := Option.bind_eq_some_iff.1 h
    apply ih h
    rcases hWord with hMem | hRead
    · rcases List.mem_cons.1 hMem with rfl | hMem
      · exact .inr (read_insert?_self hu)
      · exact .inl hMem
    · exact .inr (read_insert?_of_read hu hRead)

end PrefixTree

namespace PrefixCode

/-- In the tree of a canonical code each word leads to its symbol. -/
theorem read_of_tree? {lengths : List Nat} {t : PrefixTree} (h : tree? lengths = some t)
    {symbol : Nat} {word : Bits} (hWord : (symbol, word) ∈ words lengths) :
    t.read word = some (symbol, []) := by
  unfold tree? at h
  split at h
  · contradiction
  · exact PrefixTree.read_of_foldlM_insert? h (.inl hWord)

/-- In a code with a word for each symbol, the words stand in the order of their symbols. -/
theorem mem_words_of_range {lengths : List Nat} {n symbol : Nat}
    (hSymbols : (words lengths).map (·.1) = List.range n) (h : symbol < n) :
    (symbol, (((words lengths).map (·.2)).toArray.getD symbol [])) ∈ words lengths := by
  have hLength : (words lengths).length = n := by
    simpa using congrArg List.length hSymbols
  have hHere : symbol < (words lengths).length := by omega
  have hFirst : ((words lengths)[symbol]).1 = symbol := by
    have := List.getElem_map (·.1) (l := words lengths) (i := symbol) (h := by simpa using hHere)
    rw [← this]
    simp [hSymbols]
  have hSecond : ((words lengths).map (·.2)).toArray.getD symbol [] = ((words lengths)[symbol]).2 := by
    simp [Array.getD, hHere]
  have hPair : (symbol, ((words lengths)[symbol]).2) = (words lengths)[symbol] :=
    Prod.ext hFirst.symm rfl
  rw [hSecond, hPair]
  exact List.getElem_mem hHere

end PrefixCode

namespace Deflate

/-! ## The fixed codes -/

/-- Each word of the fixed code for octets and lengths leads to its symbol. -/
theorem read_lengthWord {symbol : Nat} (h : symbol < 288) (rest : Bits) :
    fixedLengthTree.read (lengthWords.getD symbol [] ++ rest) = some (symbol, rest) := by
  have hTree : (PrefixCode.tree? Alphabet.fixedLengths).isSome := by decide +kernel
  have hSymbols : (PrefixCode.words Alphabet.fixedLengths).map (·.1) = List.range 288 := by
    decide +kernel
  obtain ⟨t, ht⟩ := Option.isSome_iff_exists.1 hTree
  rw [fixedLengthTree, ht, Option.getD_some]
  exact PrefixTree.read_append _ _ _ _
    (PrefixCode.read_of_tree? ht (PrefixCode.mem_words_of_range hSymbols h))

/-- Each word of the fixed code for distances leads to its symbol. -/
theorem read_distanceWord {symbol : Nat} (h : symbol < 32) (rest : Bits) :
    fixedDistanceTree.read (distanceWords.getD symbol [] ++ rest) = some (symbol, rest) := by
  have hTree : (PrefixCode.tree? Alphabet.fixedDistances).isSome := by decide +kernel
  have hSymbols : (PrefixCode.words Alphabet.fixedDistances).map (·.1) = List.range 32 := by
    decide +kernel
  obtain ⟨t, ht⟩ := Option.isSome_iff_exists.1 hTree
  rw [fixedDistanceTree, ht, Option.getD_some]
  exact PrefixTree.read_append _ _ _ _
    (PrefixCode.read_of_tree? ht (PrefixCode.mem_words_of_range hSymbols h))

/-- With two symbols at least, no word is empty: it would lead to both. -/
theorem lengthWord_ne_nil {symbol : Nat} (h : symbol < 288) : lengthWords.getD symbol [] ≠ [] := by
  intro hNil
  obtain ⟨other, hOther, hNe⟩ : ∃ other < 288, other ≠ symbol := ⟨if symbol = 0 then 1 else 0, by
    split <;> omega, by split <;> omega⟩
  have hThere := read_lengthWord h (lengthWords.getD other [])
  rw [hNil, List.nil_append] at hThere
  have hHere := read_lengthWord hOther []
  rw [List.append_nil, hThere] at hHere
  exact hNe (by simpa using (congrArg Prod.fst (Option.some.inj hHere)).symm)

/-- A number of a class is read back from its extra bits. -/
theorem readNumber_ofNat {classes : List NumberClass} {n place : Nat} {c : NumberClass}
    (h : Alphabet.classOf? classes n = some (place, c)) (rest : Bits) :
    readNumber classes place (Bits.ofNat c.extra (n - c.base) ++ rest) = some (n, rest) := by
  obtain ⟨hGet, hBase, hExtra⟩ := Alphabet.classOf?_spec h
  have hSum : c.base + (n - c.base) = n := by omega
  simp [readNumber, hGet, Bits.takeNat_ofNat _ _ _ hExtra, hSum]

/-! ## Tokens -/

/-- A token that fits is read back. -/
theorem readToken?_tokenBits {t : Token} (hFits : t.Fits) (rest : Bits) :
    readToken? fixedLengthTree fixedDistanceTree (tokenBits t ++ rest) = some (some t, rest) := by
  cases t with
  | literal b =>
    have hOctet : b.toNat < 256 := b.toNat_lt
    have hSymbol : b.toNat < Alphabet.endMark := hOctet
    have hWord : b.toNat < 288 := by omega
    rw [tokenBits, readToken?, read_lengthWord hWord]
    simp [hSymbol]
  | copy length distance =>
    obtain ⟨⟨hMin, hMax⟩, hNear, hFar⟩ := hFits
    obtain ⟨place, c, hLength⟩ := Alphabet.exists_lengthClass hMin hMax
    obtain ⟨way, d, hDistance⟩ := Alphabet.exists_distanceClass hNear hFar
    have hPlace : place < 29 := by
      simpa [Alphabet.lengthClasses] using
        (List.getElem?_eq_some_iff.1 (Alphabet.classOf?_spec hLength).1).1
    have hWay : way < 30 := by
      simpa [Alphabet.distanceClasses] using
        (List.getElem?_eq_some_iff.1 (Alphabet.classOf?_spec hDistance).1).1
    have hOver : ¬ Alphabet.firstLength + place < Alphabet.endMark := by
      simp only [Alphabet.firstLength, Alphabet.endMark]
      omega
    have hGoes : ¬ Alphabet.firstLength + place = Alphabet.endMark := by
      simp only [Alphabet.firstLength, Alphabet.endMark]
      omega
    have hLengthWord : Alphabet.firstLength + place < 288 := by
      simp only [Alphabet.firstLength]
      omega
    have hDistanceWord : way < 32 := by omega
    -- the word of the length, its extra bits, the word of the distance, and its extra bits
    rw [tokenBits, classBits, classBits, hLength, hDistance]
    simp only [List.append_assoc]
    rw [readToken?, read_lengthWord hLengthWord]
    simp only [Option.bind_eq_bind, Option.bind_some, if_neg hOver, if_neg hGoes,
      Nat.add_sub_cancel_left, readNumber_ofNat hLength, read_distanceWord hDistanceWord,
      readNumber_ofNat hDistance]
    rfl

theorem readToken?_endMark (rest : Bits) :
    readToken? fixedLengthTree fixedDistanceTree
      (lengthWords.getD Alphabet.endMark [] ++ rest) = some (none, rest) := by
  have hWord : Alphabet.endMark < 288 := by decide
  rw [readToken?, read_lengthWord hWord]
  simp

/-- Written tokens and the end mark are read back as what the tokens expand to. -/
theorem readTokens_flatMap_tokenBits {tokens : List Token} (hFits : ∀ t ∈ tokens, t.Fits)
    {out whole : Array UInt8} (hExpand : Token.expandAll? out tokens = some whole) {fuel : Nat}
    (hFuel : tokens.length < fuel) (rest : Bits) :
    readTokens fixedLengthTree fixedDistanceTree fuel out
      (tokens.flatMap tokenBits ++ (lengthWords.getD Alphabet.endMark [] ++ rest)) =
      some (whole, rest) := by
  induction tokens generalizing out fuel with
  | nil =>
    obtain ⟨fuel, rfl⟩ : ∃ n, fuel = n + 1 := ⟨fuel - 1, by simp at hFuel; omega⟩
    obtain rfl : out = whole := by simpa [Token.expandAll?] using hExpand
    rw [List.flatMap_nil, List.nil_append, readTokens, readToken?_endMark]
  | cons t tokens ih =>
    rw [Token.expandAll?] at hExpand
    split at hExpand
    · contradiction
    · rename_i next hNext
      obtain ⟨fuel, rfl⟩ : ∃ n, fuel = n + 1 := ⟨fuel - 1, by simp at hFuel; omega⟩
      rw [List.flatMap_cons, List.append_assoc, readTokens,
        readToken?_tokenBits (hFits t (List.mem_cons_self ..))]
      simp only [hNext]
      exact ih (fun t ht => hFits t (List.mem_cons_of_mem _ ht)) hExpand (by simpa using hFuel)

/-- Every token takes a bit at least. -/
theorem length_le_length_flatMap_tokenBits {tokens : List Token} (hFits : ∀ t ∈ tokens, t.Fits) :
    tokens.length ≤ (tokens.flatMap tokenBits).length := by
  induction tokens with
  | nil => simp
  | cons t tokens ih =>
    have hRest := ih fun t ht => hFits t (List.mem_cons_of_mem _ ht)
    -- no word of the code for lengths is empty
    have hHere : 0 < (tokenBits t).length := by
      rw [List.length_pos_iff]
      intro hNil
      cases t with
      | literal b =>
        have hOctet : b.toNat < 256 := b.toNat_lt
        have hWord : b.toNat < 288 := by omega
        exact lengthWord_ne_nil hWord hNil
      | copy length distance =>
        obtain ⟨⟨hMin, hMax⟩, -, -⟩ := hFits _ (List.mem_cons_self ..)
        obtain ⟨place, c, hLength⟩ := Alphabet.exists_lengthClass hMin hMax
        have hPlace : place < 29 := by
          simpa [Alphabet.lengthClasses] using
            (List.getElem?_eq_some_iff.1 (Alphabet.classOf?_spec hLength).1).1
        simp only [tokenBits, classBits, hLength, List.append_eq_nil_iff] at hNil
        exact lengthWord_ne_nil (by simp only [Alphabet.firstLength]; omega) hNil.1.1
    rw [List.flatMap_cons, List.length_cons, List.length_append]
    omega

/-- A payload in one block with the fixed codes is read back, up to the end of the block. -/
theorem expand?_fixedBlock (payload : Bytes) (rest : Bits) :
    expand? (fixedBlock (Token.tokenize payload) ++ rest) = some (payload, rest) := by
  have hFits : ∀ t ∈ Token.tokenize payload, t.Fits := fun _ => Token.fits_of_mem_tokenize
  have hCount := length_le_length_flatMap_tokenBits hFits
  have hKind (bits : Bits) : Bits.takeNat 2 (true :: false :: bits) = some (1, bits) := rfl
  rw [expand?, fixedBlock]
  simp only [List.cons_append, List.nil_append, List.append_assoc]
  rw [readBlocks, hKind]
  simp only [readBody]
  rw [readTokens_flatMap_tokenBits hFits (Token.expandAll?_tokenize payload)]
  · rfl
  · simp only [List.length_append]
    omega

end Deflate

end ReplicatedStore
