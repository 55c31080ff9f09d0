import LengthDisasm.Proofs.Boundary

/-!
# Items before a cut

Data that is cut is listed up to the cut as if nothing followed. An item keeps its body unless it is
a skipped run that reaches across the cut, an instruction at the start of zero bytes that fill the
data up to the cut, or a byte that fails to decode for a reason that lies behind the cut.

## Main definitions

* `IsSkippable` — bytes that are skipped if nothing follows them
* `Item.Survives` — an item keeps its body if the data is cut after given bytes

## Main results

* `bodyAt_of_survives` — an item that survives is listed the same
* `bodyAt_of_not_survives` — what is listed in place of one that does not
-/

namespace LengthDisasm

/-- Bytes at an address that are skipped if nothing follows them: zero bytes, at least a block of
them, without a symbol inside them or right behind them. -/
def IsSkippable (symbols : List Symbol) (a : Address) (bytes : List Byte) : Prop :=
  ZeroRun.blockSize ≤ bytes.length ∧ ZeroRun.isAll bytes = true ∧
    ∀ s ∈ symbols, a < s.address → a.toNat + bytes.length < s.address.toNat

/-- An item keeps its body if the data is cut after `bytes`, which start with the item: a skipped
run does not reach across the cut, an instruction is not skipped with the bytes up to the cut, and a
byte that starts no instruction fails to decode for the same reason. -/
def Item.Survives (mode : Mode) (decodeZeroes : Bool) (symbols : List Symbol) (bytes : List Byte)
    (item : Item) : Prop :=
  match item.body with
  | .elided count => count ≤ bytes.length
  | .decoded _ (.ok _) => decodeZeroes = true ∨ ¬ IsSkippable symbols item.address bytes
  | .decoded _ (.error e) => decode mode bytes = .error e

variable {mode : Mode} {symbols : List Symbol} {settings : ScanSettings} {a : Address}
  {bytes more : List Byte}

/-! ### Decoding before a cut -/

/-- At a boundary, a cut changes a decode result only if this is an error and the bytes before the
cut are too few to find it. -/
theorem decode_before_boundary (hne : bytes ≠ [])
    (hcut : IsBoundary mode (bytes ++ more) bytes.length) :
    decode mode (bytes ++ more) = decode mode bytes ∨
      decode mode bytes = .error .insufficientLength ∧
        ∃ e, e ≠ .insufficientLength ∧ decode mode (bytes ++ more) = .error e := by
  by_cases hshort : decode mode bytes = .error .insufficientLength
  · -- the bytes before the cut want more, so what follows decides
    cases hdecode : decode mode (bytes ++ more) with
    | ok i =>
      -- an instruction that ends before the cut is decoded from the bytes before it
      obtain ⟨n, hn, -⟩ := hcut.of_pos (List.length_pos_iff.mpr hne)
      rw [hdecode, decodedLength] at hn
      have htake := decode_take_of_le hdecode (Nat.le.intro hn.symm)
      rw [List.take_left, hshort] at htake
      cases htake
    | error e =>
      by_cases he : e = .insufficientLength
      · exact .inl (by rw [hshort, he])
      · exact .inr ⟨hshort, e, he, rfl⟩
  · exact .inl (decode_append hshort more)

theorem decodedAt_append_of_decode_eq (hne : bytes ≠ [])
    (h : decode mode (bytes ++ more) = decode mode bytes) :
    ItemBody.decodedAt mode (bytes ++ more) = .decodedAt mode bytes := by
  rw [ItemBody.decodedAt, h, List.take_append_of_le_length (decodedLength_le hne)]
  rfl

/-- Where decoding fails no run is skipped, since zero bytes can be decoded. -/
theorem elided?_eq_none_of_error (limit : Option Nat) {e : DecodeError}
    (h : decode mode (bytes ++ more) = .error e) : ZeroRun.elided? limit bytes = none := by
  refine Option.eq_none_iff_forall_ne_some.mpr fun count hcount => ?_
  have hrun := (ZeroRun.elided?_eq_some_iff.mp hcount).1.trans (ZeroRun.within_le_length _ _)
  have hpair : bytes = 0 :: 0 :: bytes.drop 2 := by
    have hsplit := List.take_append_drop 2 bytes
    have htwo : 2 ≤ ZeroRun.length bytes := Nat.le_trans (by decide) hrun
    rw [ZeroRun.take_eq_replicate htwo] at hsplit
    exact hsplit.symm
  obtain ⟨i, hdecode, -⟩ := decode_zero_zero mode (bytes.drop 2 ++ more)
  rw [hpair, List.cons_append, List.cons_append, hdecode] at h
  cases h

/-! ### Limits -/

theorem ScanSettings.lt_limit_iff (h : settings.symbols.Answers symbols) (m : Nat) :
    (∀ n, settings.limit a = some n → m < n) ↔
      ∀ s ∈ symbols, a < s.address → a.toNat + m < s.address.toNat :=
  le_limit_iff h.findsNext (m + 1)

/-! ### What is listed before a cut -/

theorem ScanSettings.bodyAt_eq_decodedAt
    (h : settings.options.decodeZeroes = true ∨ ZeroRun.elided? (settings.limit a) bytes = none) :
    settings.bodyAt a bytes = .decodedAt settings.mode bytes := by
  unfold bodyAt
  split
  · rfl
  · rename_i hzeroes
    rw [h.resolve_left hzeroes]

theorem ScanSettings.elided?_of_decoded {data b : List Byte}
    {result : Except DecodeError Instruction} (h : settings.bodyAt a data = .decoded b result) :
    settings.options.decodeZeroes = true ∨ ZeroRun.elided? (settings.limit a) data = none := by
  unfold bodyAt at h
  split at h
  · exact .inl (by assumption)
  · refine .inr ?_
    cases hrun : ZeroRun.elided? (settings.limit a) data with
    | none => rfl
    | some count =>
      rw [hrun] at h
      cases h

/-- Bytes that are skipped only before a cut are skippable. -/
theorem elided?_eq_none_of_append (h : settings.symbols.Answers symbols)
    (hnone : ZeroRun.elided? (settings.limit a) (bytes ++ more) = none)
    (hskip : ¬ IsSkippable symbols a bytes) : ZeroRun.elided? (settings.limit a) bytes = none := by
  rcases ZeroRun.elided?_append_or (settings.limit a) bytes more with heq | ⟨hall, hlimit⟩
  · rw [← heq, hnone]
  · rw [ZeroRun.elided?_of_isAll hall hlimit, if_neg]
    intro hblock
    exact hskip ⟨hblock, hall, (ScanSettings.lt_limit_iff h _).mp hlimit⟩

theorem elided?_of_isSkippable (h : settings.symbols.Answers symbols)
    (hskip : IsSkippable symbols a bytes) :
    ∃ count, ZeroRun.elided? (settings.limit a) bytes = some count := by
  obtain ⟨hblock, hall, hfree⟩ := hskip
  rw [ZeroRun.elided?_of_isAll hall ((ScanSettings.lt_limit_iff h _).mpr hfree), if_pos hblock]
  exact ⟨_, rfl⟩

/-- An item that survives a cut at a boundary is listed the same before it. -/
theorem bodyAt_of_survives (h : settings.symbols.Answers symbols) (hne : bytes ≠ [])
    (hcut : IsBoundary settings.mode (bytes ++ more) bytes.length) {label : Option Label}
    (hs : Item.Survives settings.mode settings.options.decodeZeroes symbols bytes
      ⟨a, label, settings.bodyAt a (bytes ++ more)⟩) :
    settings.bodyAt a bytes = settings.bodyAt a (bytes ++ more) := by
  unfold Item.Survives at hs
  cases hbody : settings.bodyAt a (bytes ++ more) with
  | elided count =>
    simp only [hbody] at hs
    obtain ⟨hzeroes, hrun⟩ := ScanSettings.elided?_of_bodyAt hbody
    have hrun' : ZeroRun.elided? (settings.limit a) bytes = some count := by
      rcases ZeroRun.elided?_append_or (settings.limit a) bytes more with heq | ⟨hall, hlimit⟩
      · rw [← heq, hrun]
      · -- the run goes on behind the cut, but not by a whole block
        exact ZeroRun.elided?_of_append hall hlimit hrun hs
    simp [ScanSettings.bodyAt, hzeroes, hrun']
  | decoded b result =>
    obtain ⟨hdecode, hb⟩ := ScanSettings.decode_of_bodyAt hbody
    have helided := ScanSettings.elided?_of_decoded hbody
    have hplain := ScanSettings.bodyAt_eq_decodedAt helided
    rw [← hbody, hplain]
    cases result with
    | ok i =>
      simp only [hbody] at hs
      have hnone : settings.options.decodeZeroes = true ∨
          ZeroRun.elided? (settings.limit a) bytes = none := by
        rcases hs with hzeroes | hskip
        · exact .inl hzeroes
        · exact helided.imp_right fun hnone => elided?_eq_none_of_append h hnone hskip
      rcases decode_before_boundary hne hcut with heq | ⟨-, e, -, herror⟩
      · rw [ScanSettings.bodyAt_eq_decodedAt hnone, decodedAt_append_of_decode_eq hne heq]
      · rw [hdecode] at herror
        cases herror
    | error e =>
      simp only [hbody] at hs
      have hnone := elided?_eq_none_of_error (settings.limit a) hdecode
      rw [ScanSettings.bodyAt_eq_decodedAt (.inr hnone),
        decodedAt_append_of_decode_eq hne (hdecode.trans hs.symm)]

/-- What is listed before a cut if the item does not survive it: a byte that wants more bytes in
place of another error, a skipped run in place of an instruction, or something in place of a longer
run. -/
theorem bodyAt_of_not_survives (h : settings.symbols.Answers symbols) (hne : bytes ≠ [])
    (hcut : IsBoundary settings.mode (bytes ++ more) bytes.length) {label : Option Label}
    (hs : ¬ Item.Survives settings.mode settings.options.decodeZeroes symbols bytes
      ⟨a, label, settings.bodyAt a (bytes ++ more)⟩) :
    (∃ b e, e ≠ .insufficientLength ∧ settings.bodyAt a (bytes ++ more) = .decoded b (.error e) ∧
        settings.bodyAt a bytes = .decoded b (.error .insufficientLength)) ∨
      (∃ b i count, settings.bodyAt a (bytes ++ more) = .decoded b (.ok i) ∧
        settings.bodyAt a bytes = .elided count) ∨
      ∃ count, settings.bodyAt a (bytes ++ more) = .elided count ∧ bytes.length < count := by
  unfold Item.Survives at hs
  cases hbody : settings.bodyAt a (bytes ++ more) with
  | elided count =>
    simp only [hbody] at hs
    exact .inr (.inr ⟨count, rfl, Nat.lt_of_not_le hs⟩)
  | decoded b result =>
    obtain ⟨hdecode, hb⟩ := ScanSettings.decode_of_bodyAt hbody
    cases result with
    | ok i =>
      simp only [hbody, not_or, not_not] at hs
      obtain ⟨hzeroes, hskip⟩ := hs
      obtain ⟨count, hcount⟩ := elided?_of_isSkippable h hskip
      refine .inr (.inl ⟨b, i, count, rfl, ?_⟩)
      simp [ScanSettings.bodyAt, hzeroes, hcount]
    | error e =>
      simp only [hbody] at hs
      have hnone := elided?_eq_none_of_error (settings.limit a) hdecode
      rcases decode_before_boundary hne hcut with heq | ⟨hshort, e', he', herror⟩
      · -- the same result would survive
        exact absurd (heq.symm.trans hdecode) hs
      · rw [hdecode] at herror
        cases herror
        refine .inl ⟨b, e, he', rfl, ?_⟩
        rw [ScanSettings.bodyAt_eq_decodedAt (.inr hnone), ItemBody.decodedAt, hshort, ← hb]
        -- both errors cover one byte
        rw [decodedLength, decodedLength,
          List.take_append_of_le_length (List.length_pos_iff.mpr hne)]

/-- No skipped run follows another one, unless at a symbol. -/
theorem bodyAt_after_elided (h : settings.symbols.Answers symbols) {data : List Byte}
    {count n : Nat}
    (hbody : settings.bodyAt a data = .elided count) (hend : a.toNat + count < 2 ^ 64)
    (hsymbol : ∀ s ∈ symbols, s.address ≠ a + BitVec.ofNat 64 count) :
    settings.bodyAt (a + BitVec.ofNat 64 count) (data.drop count) ≠ .elided n := by
  intro hnext
  obtain ⟨-, hrun⟩ := ScanSettings.elided?_of_bodyAt hbody
  obtain ⟨-, hrun'⟩ := ScanSettings.elided?_of_bodyAt hnext
  have hn := ZeroRun.le_within_of_elided? hrun'
  have hcount := ZeroRun.le_within_of_elided? hrun
  have hwithin := ZeroRun.within_le_length (settings.limit a) data
  have hwithin' :=
    ZeroRun.within_le_length (settings.limit (a + BitVec.ofNat 64 count)) (data.drop count)
  rw [ZeroRun.length_drop (hcount.trans hwithin)] at hwithin'
  obtain ⟨-, -, hblocks⟩ := ZeroRun.elided?_eq_some_iff.mp hrun
  obtain ⟨hblock, -, hblocks'⟩ := ZeroRun.elided?_eq_some_iff.mp hrun'
  simp only [ZeroRun.wholeBlocks, ZeroRun.blockSize] at hblocks hblock hblocks'
  -- the first run was cut short by a symbol, which lies less than a block behind it
  have haddress : (a + BitVec.ofNat 64 count).toNat = a.toNat + count := toNat_add_ofNat hend
  cases hafter : settings.symbols.after? a with
  | none =>
    rw [ScanSettings.limit_of_after_none hafter, ZeroRun.within] at hblocks
    omega
  | some t =>
    obtain ⟨ht, hat, -⟩ := h.after_some hafter
    have hdistance : (t.address - a).toNat = t.address.toNat - a.toNat := by bv_omega
    rw [ScanSettings.limit_of_after_some hafter, ZeroRun.within, hdistance] at hblocks
    have hne : t.address.toNat ≠ a.toNat + count := by
      intro heq
      exact hsymbol t ht (BitVec.eq_of_toNat_eq (heq.trans haddress.symm))
    have hle := ScanSettings.le_address_of_elided h hbody ht hat
    have hlt : a + BitVec.ofNat 64 count < t.address := by
      rw [BitVec.lt_def, haddress]
      omega
    have hle' := ScanSettings.le_address_of_elided h hnext ht hlt
    omega

end LengthDisasm
