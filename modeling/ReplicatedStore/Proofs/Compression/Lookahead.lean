import ReplicatedStore.Proofs.Compression.RoundTrip

/-!
# Reading a member does not look ahead

What a reader of bits finds, and where it stops, is settled by the bits that it reads: behind more octets
it finds the same, and these octets are left over. This goes through every reader of the compressed format
from the inside out. A reader that starts at an octet boundary finds the boundary by counting from the end,
so what is put behind has to be whole octets; a bound on the number of rounds only grows with the bits.

Main results:

* `PrefixTree.read_append_of_read`, `Deflate.readToken?_append`, `Deflate.readBlocks_append` — the readers
  of words, tokens and blocks.
* `Gzip.skipHeader_append` — the header of a member.
* `Gzip.readMember?_append` — a whole member.
-/

namespace ReplicatedStore

/-! ## Numbers and words -/

namespace Bits

theorem takeNat_append {width n : Nat} {bits rest : Bits} (h : takeNat width bits = some (n, rest))
    (more : Bits) : takeNat width (bits ++ more) = some (n, rest ++ more) := by
  induction width generalizing bits n with
  | zero =>
    obtain ⟨rfl, rfl⟩ : 0 = n ∧ bits = rest := by simpa [takeNat] using h
    rfl
  | succ width ih =>
    cases bits with
    | nil => simp [takeNat] at h
    | cons b bits =>
      rw [takeNat] at h
      split at h
      · contradiction
      · rename_i m left hTake
        obtain ⟨rfl, rfl⟩ : b.toNat + 2 * m = n ∧ left = rest := by simpa using h
        rw [List.cons_append, takeNat, ih hTake]

/-- Octet boundaries are counted from the end, so whole octets behind do not move them. -/
theorem align_append (bits : Bits) {more : Bits} (hMore : more.length % 8 = 0) :
    align (bits ++ more) = align bits ++ more := by
  have hOdd : (bits ++ more).length % 8 = bits.length % 8 := by
    rw [List.length_append]
    omega
  rw [align, hOdd, List.drop_append_of_le_length (Nat.mod_le _ _), align]

end Bits

theorem PrefixTree.read_append_of_read {t : PrefixTree} {symbol : Nat} {bits rest : Bits}
    (h : t.read bits = some (symbol, rest)) (more : Bits) :
    t.read (bits ++ more) = some (symbol, rest ++ more) := by
  -- on the tree: each bit that is read leads into one half of a fork
  induction t generalizing bits with
  | vacant => simp [read] at h
  | leaf s =>
    obtain ⟨rfl, rfl⟩ : s = symbol ∧ bits = rest := by simpa [read] using h
    rfl
  | fork zero one hZero hOne =>
    cases bits with
    | nil => simp [read] at h
    | cons b bits =>
      rw [List.cons_append, read]
      rw [read] at h
      cases b with
      | false => exact hZero h
      | true => exact hOne h

namespace Deflate

theorem readNumber_append {classes : List NumberClass} {place n : Nat} {bits rest : Bits}
    (h : readNumber classes place bits = some (n, rest)) (more : Bits) :
    readNumber classes place (bits ++ more) = some (n, rest ++ more) := by
  obtain ⟨c, hClass, h⟩ := Option.bind_eq_some_iff.1 h
  obtain ⟨⟨offset, left⟩, hTake, h⟩ := Option.bind_eq_some_iff.1 h
  obtain ⟨rfl, rfl⟩ : c.base + offset = n ∧ left = rest := by simpa using h
  simp [readNumber, hClass, Bits.takeNat_append hTake more]

/-! ## Tokens -/

theorem readToken?_append {lengths distances : PrefixTree} {token? : Option Token} {bits rest : Bits}
    (h : readToken? lengths distances bits = some (token?, rest)) (more : Bits) :
    readToken? lengths distances (bits ++ more) = some (token?, rest ++ more) := by
  obtain ⟨⟨symbol, left⟩, hSymbol, h⟩ := Option.bind_eq_some_iff.1 h
  rw [readToken?, PrefixTree.read_append_of_read hSymbol more]
  simp only [Option.bind_eq_bind, Option.bind_some] at h ⊢
  -- an octet, the end mark, and a copy with its length and its distance
  split at h
  · rename_i hOctet
    obtain ⟨rfl, rfl⟩ := by simpa using h
    rw [if_pos hOctet]
    rfl
  · rename_i hOver
    rw [if_neg hOver]
    split at h
    · rename_i hEnd
      obtain ⟨rfl, rfl⟩ := by simpa using h
      rw [if_pos hEnd]
      rfl
    · rename_i hGoes
      rw [if_neg hGoes]
      obtain ⟨⟨length, left⟩, hLength, h⟩ := Option.bind_eq_some_iff.1 h
      obtain ⟨⟨place, left⟩, hPlace, h⟩ := Option.bind_eq_some_iff.1 h
      obtain ⟨⟨distance, left⟩, hDistance, h⟩ := Option.bind_eq_some_iff.1 h
      obtain ⟨rfl, rfl⟩ := by simpa using h
      simp only [readNumber_append hLength more, PrefixTree.read_append_of_read hPlace more,
        readNumber_append hDistance more, Option.bind_some]
      rfl

/-- The tokens of a block, also with more rounds: the bits that bound the rounds are more. -/
theorem readTokens_append {lengths distances : PrefixTree} {fuel fuel' : Nat} (hFuel : fuel ≤ fuel')
    {out whole : Array UInt8} {bits rest : Bits}
    (h : readTokens lengths distances fuel out bits = some (whole, rest)) (more : Bits) :
    readTokens lengths distances fuel' out (bits ++ more) = some (whole, rest ++ more) := by
  induction fuel generalizing fuel' out bits with
  | zero => simp [readTokens] at h
  | succ fuel ih =>
    obtain ⟨fuel', rfl⟩ : ∃ n, fuel' = n + 1 := ⟨fuel' - 1, by omega⟩
    rw [readTokens] at h ⊢
    split at h
    · contradiction
    · rename_i left hEnd
      obtain ⟨rfl, rfl⟩ : out = whole ∧ left = rest := by simpa using h
      rw [readToken?_append hEnd more]
    · rename_i t left hToken
      rw [readToken?_append hToken more]
      split at h
      · contradiction
      · rename_i next hNext
        simp only [hNext]
        exact ih (Nat.le_of_succ_le_succ hFuel) h

/-! ## Stored octets -/

theorem readOctets_append {count : Nat} {out whole : Array UInt8} {bits rest : Bits}
    (h : readOctets count out bits = some (whole, rest)) (more : Bits) :
    readOctets count out (bits ++ more) = some (whole, rest ++ more) := by
  induction count generalizing out bits with
  | zero =>
    obtain ⟨rfl, rfl⟩ : out = whole ∧ bits = rest := by simpa [readOctets] using h
    rfl
  | succ count ih =>
    rw [readOctets] at h ⊢
    split at h
    · contradiction
    · rename_i n left hTake
      rw [Bits.takeNat_append hTake more]
      exact ih h

theorem readStored_append {out whole : Array UInt8} {bits rest : Bits}
    (h : readStored out bits = some (whole, rest)) {more : Bits} (hMore : more.length % 8 = 0) :
    readStored out (bits ++ more) = some (whole, rest ++ more) := by
  obtain ⟨⟨length, left⟩, hLength, h⟩ := Option.bind_eq_some_iff.1 h
  obtain ⟨⟨complement, left'⟩, hComplement, h⟩ := Option.bind_eq_some_iff.1 h
  rw [readStored, Bits.align_append _ hMore, Bits.takeNat_append hLength more]
  simp only [Option.bind_eq_bind, Option.bind_some, Bits.takeNat_append hComplement more]
  simp only [Option.ite_none_right_eq_some] at h
  rw [if_pos h.1]
  exact readOctets_append h.2 more

/-! ## Stated codes -/

theorem readMeta_append {order : List Nat} {start lengths : Array Nat} {bits rest : Bits}
    (h : readMeta order start bits = some (lengths, rest)) (more : Bits) :
    readMeta order start (bits ++ more) = some (lengths, rest ++ more) := by
  induction order generalizing start bits with
  | nil =>
    obtain ⟨rfl, rfl⟩ : start = lengths ∧ bits = rest := by simpa [readMeta] using h
    rfl
  | cons symbol order ih =>
    rw [readMeta] at h ⊢
    split at h
    · contradiction
    · rename_i n left hTake
      rw [Bits.takeNat_append hTake more]
      exact ih h

theorem readLengths_append {code : PrefixTree} {total fuel : Nat} {out lengths : Array Nat}
    {bits rest : Bits} (h : readLengths code total fuel out bits = some (lengths, rest)) (more : Bits) :
    readLengths code total fuel out (bits ++ more) = some (lengths, rest ++ more) := by
  induction fuel generalizing out bits with
  | zero => simp [readLengths] at h
  | succ fuel ih =>
    rw [readLengths] at h ⊢
    split at h
    · rename_i hFull
      obtain ⟨rfl, rfl⟩ : out = lengths ∧ bits = rest := by simpa using h
      rw [if_pos hFull]
    · rename_i hOpen
      rw [if_neg hOpen]
      split at h
      · contradiction
      · rename_i hRoom
        rw [if_neg hRoom]
        obtain ⟨⟨symbol, left⟩, hSymbol, h⟩ := Option.bind_eq_some_iff.1 h
        rw [PrefixTree.read_append_of_read hSymbol more]
        simp only [Option.bind_eq_bind, Option.bind_some] at h ⊢
        -- a length, the last one again, and two kinds of zeros
        split at h
        · rename_i hLength
          rw [if_pos hLength]
          exact ih h
        · rename_i hOver
          rw [if_neg hOver]
          split at h
          · rename_i hLast
            rw [if_pos hLast]
            obtain ⟨last, hBack, h⟩ := Option.bind_eq_some_iff.1 h
            obtain ⟨⟨n, left'⟩, hTake, h⟩ := Option.bind_eq_some_iff.1 h
            simp only [hBack, Bits.takeNat_append hTake more, Option.bind_some]
            exact ih h
          · rename_i hZeros
            rw [if_neg hZeros]
            split at h
            · rename_i hFew
              rw [if_pos hFew]
              obtain ⟨⟨n, left'⟩, hTake, h⟩ := Option.bind_eq_some_iff.1 h
              simp only [Bits.takeNat_append hTake more, Option.bind_some]
              exact ih h
            · rename_i hMany
              rw [if_neg hMany]
              obtain ⟨⟨n, left'⟩, hTake, h⟩ := Option.bind_eq_some_iff.1 h
              simp only [Bits.takeNat_append hTake more, Option.bind_some]
              exact ih h

theorem readCodes_append {first second : PrefixTree} {bits rest : Bits}
    (h : readCodes bits = some (first, second, rest)) (more : Bits) :
    readCodes (bits ++ more) = some (first, second, rest ++ more) := by
  obtain ⟨⟨lengthCount, left⟩, hLengths, h⟩ := Option.bind_eq_some_iff.1 h
  obtain ⟨⟨distanceCount, left'⟩, hDistances, h⟩ := Option.bind_eq_some_iff.1 h
  obtain ⟨⟨metaCount, left''⟩, hMeta, h⟩ := Option.bind_eq_some_iff.1 h
  rw [readCodes, Bits.takeNat_append hLengths more]
  simp only [Option.bind_eq_bind, Option.bind_some, Bits.takeNat_append hDistances more,
    Bits.takeNat_append hMeta more]
  simp only [Option.bind_eq_bind] at h
  split at h
  · contradiction
  · rename_i hKnown
    rw [if_neg hKnown]
    obtain ⟨⟨metaLengths, left⟩, hMetaLengths, h⟩ := Option.bind_eq_some_iff.1 h
    simp only [readMeta_append hMetaLengths more, Option.bind_some]
    split at h
    · contradiction
    · rename_i hComplete
      rw [if_neg hComplete]
      obtain ⟨metaCode, hMetaCode, h⟩ := Option.bind_eq_some_iff.1 h
      obtain ⟨⟨lengths, left⟩, hRow, h⟩ := Option.bind_eq_some_iff.1 h
      obtain ⟨one, hOne, h⟩ := Option.bind_eq_some_iff.1 h
      obtain ⟨two, hTwo, h⟩ := Option.bind_eq_some_iff.1 h
      obtain ⟨rfl, rfl, rfl⟩ := by simpa using h
      simp only [hMetaCode, readLengths_append hRow more, hOne, hTwo, Option.bind_some]
      rfl

/-! ## Blocks -/

/-- More bits allow for more rounds. -/
theorem rounds_le_append (bits more : Bits) : bits.length + 1 ≤ (bits ++ more).length + 1 := by
  rw [List.length_append]
  omega

theorem readBody_append {kind : Nat} {out whole : Array UInt8} {bits rest : Bits}
    (h : readBody kind out bits = some (whole, rest)) {more : Bits} (hMore : more.length % 8 = 0) :
    readBody kind out (bits ++ more) = some (whole, rest ++ more) := by
  unfold readBody at h ⊢
  split at h
  · exact readStored_append h hMore
  · exact readTokens_append (rounds_le_append bits more) h more
  · split at h
    · contradiction
    · rename_i lengths distances left hCodes
      rw [readCodes_append hCodes more]
      exact readTokens_append (rounds_le_append left more) h more
  · contradiction

/-- Blocks up to the last one. A stored block looks for the next octet boundary, so only whole octets may
stand behind. -/
theorem readBlocks_append {fuel fuel' : Nat} (hFuel : fuel ≤ fuel') {out whole : Array UInt8}
    {bits rest : Bits} (h : readBlocks fuel out bits = some (whole, rest)) {more : Bits}
    (hMore : more.length % 8 = 0) :
    readBlocks fuel' out (bits ++ more) = some (whole, rest ++ more) := by
  induction fuel generalizing fuel' out bits with
  | zero => simp [readBlocks] at h
  | succ fuel ih =>
    obtain ⟨fuel', rfl⟩ : ∃ n, fuel' = n + 1 := ⟨fuel' - 1, by omega⟩
    cases bits with
    | nil => simp [readBlocks] at h
    | cons last bits =>
      rw [readBlocks] at h
      rw [List.cons_append, readBlocks]
      split at h
      · contradiction
      · rename_i kind left hKind
        rw [Bits.takeNat_append hKind more]
        split at h
        · contradiction
        · rename_i next left' hBody
          simp only [readBody_append hBody hMore]
          cases last with
          | false => exact ih (Nat.le_of_succ_le_succ hFuel) h
          | true =>
            obtain ⟨rfl, rfl⟩ : next = whole ∧ left' = rest := by simpa using h
            rfl

theorem expand?_append {payload : Bytes} {bits rest : Bits} (h : expand? bits = some (payload, rest))
    {more : Bits} (hMore : more.length % 8 = 0) :
    expand? (bits ++ more) = some (payload, rest ++ more) := by
  unfold expand? at h ⊢
  split at h
  · contradiction
  · rename_i out left hBlocks
    obtain ⟨rfl, rfl⟩ : out.toList = payload ∧ left = rest := by simpa using h
    rw [readBlocks_append (rounds_le_append bits more) hBlocks hMore]

end Deflate

/-! ## Members -/

namespace Gzip

theorem skipText_append {room : Nat} {text rest : Bytes} (h : skipText room text = some rest)
    (more : Bytes) : skipText room (text ++ more) = some (rest ++ more) := by
  induction text generalizing room with
  | nil => simp [skipText] at h
  | cons b text ih =>
    rw [List.cons_append]
    unfold skipText at h ⊢
    split at h
    · rename_i hEnd
      obtain rfl : text = rest := by simpa using h
      rw [if_pos hEnd]
    · rename_i hGoes
      rw [if_neg hGoes]
      cases room with
      | zero => contradiction
      | succ room => exact ih h

theorem skipExtra_append {field rest : Bytes} (h : skipExtra field = some rest) (more : Bytes) :
    skipExtra (field ++ more) = some (rest ++ more) := by
  unfold skipExtra at h
  split at h
  · rename_i low high left
    simp only [Option.ite_none_left_eq_some, Nat.not_lt, Option.some.injEq] at h
    obtain ⟨hLong, rfl⟩ := h
    have hLonger : ¬ (left ++ more).length < low.toNat + 256 * high.toNat := by
      rw [List.length_append]
      omega
    rw [List.cons_append, List.cons_append, skipExtra, if_neg hLonger,
      List.drop_append_of_le_length hLong]
  · contradiction

theorem skipCheck_append {member field rest : Bytes} (h : skipCheck member field = some rest)
    (more : Bytes) : skipCheck (member ++ more) (field ++ more) = some (rest ++ more) := by
  unfold skipCheck at h
  split at h
  · rename_i low high behind
    simp only [Option.ite_none_right_eq_some, Option.some.injEq] at h
    obtain ⟨hCheck, rfl⟩ := h
    -- the check value covers the same octets
    have hCount : (member ++ more).length - (low :: high :: (behind ++ more)).length =
        member.length - (low :: high :: behind).length := by
      simp only [List.length_append, List.length_cons]
      omega
    rw [List.cons_append, List.cons_append, skipCheck]
    simp only [hCount, List.take_append_of_le_length (Nat.sub_le _ _)]
    rw [if_pos hCheck]
  · contradiction

/-- Behind a field, announced or not, if nothing is looked at ahead of it. -/
theorem skipField_append {announced : Bool} {skip skip' : Bytes → Option Bytes} {field rest more : Bytes}
    (hSkip : skip field = some rest → skip' (field ++ more) = some (rest ++ more))
    (h : skipField announced skip field = some rest) :
    skipField announced skip' (field ++ more) = some (rest ++ more) := by
  cases announced with
  | false =>
    obtain rfl : field = rest := by simpa using h
    rfl
  | true => exact hSkip h

theorem skipHeader_append {member rest : Bytes} (h : skipHeader member = some rest) (more : Bytes) :
    skipHeader (member ++ more) = some (rest ++ more) := by
  unfold skipHeader at h
  split at h
  · simp only [Option.bind_eq_bind] at h
    split at h
    · contradiction
    · rename_i hKnown
      simp only [List.cons_append, skipHeader]
      rw [if_neg hKnown]
      -- each field leaves over what the next one starts with
      obtain ⟨afterExtra, hExtra, h⟩ := Option.bind_eq_some_iff.1 h
      obtain ⟨afterName, hName, h⟩ := Option.bind_eq_some_iff.1 h
      obtain ⟨afterComment, hComment, h⟩ := Option.bind_eq_some_iff.1 h
      rw [skipField_append (skipExtra_append · more) hExtra]
      simp only [Option.bind_eq_bind, Option.bind_some]
      rw [skipField_append (skipText_append · more) hName]
      simp only [Option.bind_some]
      rw [skipField_append (skipText_append · more) hComment]
      simp only [Option.bind_some]
      have hCheck := skipField_append (fun hField => skipCheck_append hField more) h
      simpa only [List.cons_append] using hCheck
  · contradiction

/-- Octets behind a member are left over. -/
theorem readMember?_append {member payload : Bytes} {rest : Bits}
    (h : readMember? member = some (payload, rest)) (more : Bytes) :
    readMember? (member ++ more) = some (payload, rest ++ Bits.ofBytes more) := by
  have hMore : (Bits.ofBytes more).length % 8 = 0 := by
    rw [Bits.length_ofBytes]
    omega
  obtain ⟨body, hBody, h⟩ := Option.bind_eq_some_iff.1 h
  obtain ⟨⟨text, left⟩, hText, h⟩ := Option.bind_eq_some_iff.1 h
  obtain ⟨⟨check, left'⟩, hCheck, h⟩ := Option.bind_eq_some_iff.1 h
  obtain ⟨⟨length, left''⟩, hLength, h⟩ := Option.bind_eq_some_iff.1 h
  simp only [Option.ite_none_right_eq_some, Option.some.injEq, Prod.mk.injEq] at h
  obtain ⟨hSound, rfl, rfl⟩ := h
  rw [readMember?, skipHeader_append hBody more]
  simp only [Option.bind_eq_bind, Option.bind_some]
  rw [Bits.ofBytes_append, Deflate.expand?_append hText hMore]
  simp only [Option.bind_some]
  rw [Bits.align_append _ hMore, Bits.takeNat_append hCheck]
  simp only [Option.bind_some]
  rw [Bits.takeNat_append hLength]
  simp only [Option.bind_some]
  rw [if_pos hSound]

end Gzip

end ReplicatedStore
