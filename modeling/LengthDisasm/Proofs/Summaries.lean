import LengthDisasm.Proofs.SettledWalk

/-!
# Summaries along the code

The counts of two summaries add up. So do those of two walks one behind the other, as long as the
first of them never wants for bytes: with more data behind it, a walk then makes the same steps and
goes on where they end, whatever errors they had to pass by.

## Main definitions

* `Summary.Tallies` — the counts of a summary go with so many bytes and steps

## Main results

* `Summary.ofSteps_append` — the summary of some steps and some more
* `Summary.mergeInWords_bind` — merging in words fails only if the counts of all summaries together
  are too large
* `Walk.settles_steps` — a walk that never wants for bytes is settled
* `Walk.summary_append` — the summary of longer data
* `Walk.tallies_summary` — what the counts of a walk say about its data
* `summaries_compose` — summaries compose along the code
-/

namespace LengthDisasm

attribute [ext] Summary

namespace Summary

/-! ### Merging -/

variable (s t u : Summary)

theorem merge_assoc : (s.merge t).merge u = s.merge (t.merge u) := by
  ext <;> apply Nat.add_assoc

theorem merge_comm : s.merge t = t.merge s := by
  ext <;> apply Nat.add_comm

@[simp] theorem empty_merge : empty.merge s = s := by
  ext <;> apply Nat.zero_add

@[simp] theorem merge_empty : s.merge empty = s := rfl

@[simp] theorem instructions_merge : (s.merge t).instructions = s.instructions + t.instructions :=
  rfl

@[simp] theorem bytes_merge : (s.merge t).bytes = s.bytes + t.bytes := rfl

theorem count_merge (e : DecodeError) : (s.merge t).count e = s.count e + t.count e := by
  cases e <;> rfl

theorem errors_eq :
    s.errors = s.insufficientLength + s.unknownOpcode + s.invalidLock + s.badOperand := by
  simp only [errors, DecodeError.all, List.foldr_cons, List.foldr_nil, count]
  omega

@[simp] theorem errors_merge : (s.merge t).errors = s.errors + t.errors := by
  simp only [errors_eq, merge]
  omega

/-! ### Merging in words -/

theorem fitsInWords_iff : s.fitsInWords = true ↔
    s.instructions < 2 ^ 64 ∧ s.bytes < 2 ^ 64 ∧ ∀ e, s.count e < 2 ^ 64 := by
  have hall : ∀ e, e ∈ DecodeError.all := by
    intro e
    cases e <;> decide
  simp [fitsInWords, hall]

variable {s t} in
theorem fitsInWords_of_merge (h : (s.merge t).fitsInWords = true) : s.fitsInWords = true := by
  rw [fitsInWords_iff] at h ⊢
  obtain ⟨hinstructions, hbytes, hcount⟩ := h
  rw [instructions_merge] at hinstructions
  rw [bytes_merge] at hbytes
  refine ⟨by omega, by omega, fun e => ?_⟩
  have he := hcount e
  rw [count_merge] at he
  omega

theorem mergeInWords_comm : s.mergeInWords t = t.mergeInWords s := by
  rw [mergeInWords, mergeInWords, merge_comm]

/-- Two summaries whose counts are too large together are so with any third one. -/
theorem mergeInWords_bind :
    (s.mergeInWords t >>= fun r => r.mergeInWords u) = (s.merge t).mergeInWords u := by
  by_cases h : (s.merge t).fitsInWords = true
  · rw [mergeInWords, if_pos h]
    rfl
  · have hall : ¬ ((s.merge t).merge u).fitsInWords = true :=
      fun hall => h (fitsInWords_of_merge hall)
    rw [mergeInWords, if_neg h, mergeInWords, if_neg hall]
    rfl

theorem mergeInWords_assoc : (s.mergeInWords t >>= fun r => r.mergeInWords u) =
    (t.mergeInWords u >>= fun r => s.mergeInWords r) :=
  calc
    _ = (s.merge t).mergeInWords u := mergeInWords_bind s t u
    _ = (t.merge u).mergeInWords s := by rw [mergeInWords, mergeInWords, merge_assoc, merge_comm s]
    _ = (t.mergeInWords u >>= fun r => r.mergeInWords s) := (mergeInWords_bind t u s).symm
    _ = _ := congrArg _ (funext fun r => mergeInWords_comm r s)

variable {s} in
theorem empty_mergeInWords (h : s.fitsInWords = true) : empty.mergeInWords s = .ok s := by
  rw [mergeInWords, empty_merge, if_pos h]

/-! ### Summaries of steps -/

theorem add_eq_merge (step : Step) : s.add step = s.merge (ofSteps [step]) := by
  simp only [ofSteps, List.foldl_cons, List.foldl_nil, add]
  cases step.result with
  | ok i => simp [merge, empty]
  | error e => cases e <;> simp [merge, empty, countError]

theorem foldl_add (steps : List Step) : steps.foldl add s = s.merge (ofSteps steps) := by
  induction steps generalizing s with
  | nil => rfl
  | cons step steps ih =>
    have hrest : ofSteps (step :: steps) = (ofSteps [step]).merge (ofSteps steps) :=
      ih (empty.add step)
    rw [List.foldl_cons, ih, hrest, add_eq_merge, merge_assoc]

theorem ofSteps_append (steps more : List Step) :
    ofSteps (steps ++ more) = (ofSteps steps).merge (ofSteps more) := by
  rw [ofSteps, List.foldl_append, foldl_add]
  rfl

/-! ### What the counts say -/

/-- The counts of a summary go with so many bytes and steps: every step is an instruction of one to
fifteen bytes, or a byte that starts none. -/
structure Tallies (s : Summary) (bytes steps : Nat) : Prop where
  bytes_eq : s.bytes = bytes
  steps_eq : s.instructions + s.errors = steps
  steps_le : s.instructions + s.errors ≤ s.bytes
  bytes_le : s.bytes ≤ 15 * s.instructions + s.errors

variable {s t} {bytes bytes' steps steps' : Nat}

theorem tallies_step {step : Step} (hpos : 0 < step.length) (hle : step.length ≤ 15)
    (herror : ∀ e, step.result = .error e → step.length = 1) :
    (ofSteps [step]).Tallies step.length 1 := by
  cases hresult : step.result with
  | ok i => constructor <;> simp [ofSteps, add, hresult, errors_eq, empty] <;> omega
  | error e =>
    have hlength := herror e hresult
    cases e <;> constructor <;> simp [ofSteps, add, hresult, errors_eq, empty, countError, hlength]

theorem Tallies.merge (h : s.Tallies bytes steps) (h' : t.Tallies bytes' steps') :
    (s.merge t).Tallies (bytes + bytes') (steps + steps') := by
  obtain ⟨hbytes, hsteps, hlow, hhigh⟩ := h
  obtain ⟨hbytes', hsteps', hlow', hhigh'⟩ := h'
  constructor <;> simp only [instructions_merge, bytes_merge, errors_merge] <;> omega

theorem Tallies.fitsInWords (h : s.Tallies bytes steps) (hlt : bytes < 2 ^ 64) :
    s.fitsInWords = true := by
  obtain ⟨hbytes, -, hlow, -⟩ := h
  rw [errors_eq] at hlow
  rw [fitsInWords_iff]
  refine ⟨by omega, by omega, fun e => ?_⟩
  cases e <;> simp only [count] <;> omega

end Summary

namespace Walk

/-! ### Walks through longer data -/

/-- A walk that never wants for bytes is settled by its data. -/
theorem settles_steps (w : Walk) (h : ∀ s ∈ w.steps, s.result ≠ .error .insufficientLength) :
    Settles w.mode w.address w.data w.steps := by
  induction w using step_induction with
  | nil w hnext =>
    rw [steps_eq, hnext]
    exact .nil _ _ _
  | step w s w' hnext ih =>
    -- the first step does not want for bytes, and so is the same whatever follows
    have hsteps : w.steps = [s] ++ w'.steps := by rw [steps_eq, hnext]; rfl
    rw [hsteps] at h ⊢
    obtain ⟨hne, rfl, rfl⟩ := next?_eq_some_iff.mp hnext
    have hfirst : Settles w.mode w.address w.data [w.current] :=
      .step w.address hne (h w.current List.mem_cons_self)
    exact hfirst.append (ih fun s hs => h s (List.mem_cons_of_mem _ hs))

theorem sum_length_steps (w : Walk) : (w.steps.map Step.length).sum = w.remaining := by
  obtain ⟨last, hyields, hlast⟩ := w.exists_yields_steps
  exact hyields.sum_length hlast

/-- Behind steps that never want for bytes, a walk through longer data goes on with what follows. -/
theorem steps_append (mode : Mode) (a : Address) (data more : List Byte)
    (h : ∀ s ∈ (Walk.mk mode a data).steps, s.result ≠ .error .insufficientLength) :
    (Walk.mk mode a (data ++ more)).steps =
      (Walk.mk mode a data).steps ++
        (Walk.mk mode (a + BitVec.ofNat 64 data.length) more).steps := by
  have hyields := (settles_steps _ h).yields more
  rw [sum_length_steps] at hyields
  rw [hyields.steps_eq_append]
  simp only [advance, remaining, List.drop_left]

/-! ### Summaries of walks -/

theorem summary_of_ne {w : Walk} (hne : w.data ≠ []) :
    w.summary = (Summary.ofSteps [w.current]).merge (w.advance w.current.length).summary := by
  rw [summary, steps_eq, next?_eq_some_iff.mpr ⟨hne, rfl, rfl⟩]
  exact Summary.ofSteps_append [_] _

/-- A summary does not say where the code lies. -/
theorem summary_address (w : Walk) (a : Address) :
    w.summary = (Walk.mk w.mode a w.data).summary := by
  induction w using step_induction generalizing a with
  | nil w hnext =>
    have hempty := next?_eq_none_iff.mp hnext
    have hnext' : (Walk.mk w.mode a w.data).next? = none := next?_eq_none_iff.mpr hempty
    rw [summary, summary, steps_eq, steps_eq, hnext, hnext']
  | step w s w' hnext ih =>
    obtain ⟨hne, rfl, rfl⟩ := next?_eq_some_iff.mp hnext
    rw [summary_of_ne hne, summary_of_ne (w := ⟨w.mode, a, w.data⟩) hne]
    exact congrArg _ (ih _)

/-- The summary of longer data is that of both parts, if the first one does not want for bytes. -/
theorem summary_append (mode : Mode) (a a' : Address) (data more : List Byte)
    (h : ∀ s ∈ (Walk.mk mode a data).steps, s.result ≠ .error .insufficientLength) :
    (Walk.mk mode a (data ++ more)).summary =
      (Walk.mk mode a data).summary.merge (Walk.mk mode a' more).summary := by
  rw [summary_address ⟨mode, a', more⟩, summary, steps_append mode a data more h,
    Summary.ofSteps_append]
  rfl

theorem tallies_current (w : Walk) : (Summary.ofSteps [w.current]).Tallies w.current.length 1 :=
  Summary.tallies_step w.length_current_pos w.length_current_le_maxLength fun _ he =>
    congrArg decodedLength he

theorem Yields.tallies {w last : Walk} {steps : List Step} (h : w.Yields steps last) :
    (Summary.ofSteps steps).Tallies (steps.map Step.length).sum steps.length := by
  induction h with
  | nil w => exact ⟨rfl, rfl, Nat.le_refl _, Nat.le_refl _⟩
  | @cons w w' last s steps hnext _ ih =>
    obtain ⟨-, rfl, -⟩ := next?_eq_some_iff.mp hnext
    rw [List.map_cons, List.sum_cons, List.length_cons, Nat.add_comm steps.length]
    exact Summary.ofSteps_append [_] steps ▸ w.tallies_current.merge ih

theorem tallies_summary (w : Walk) : w.summary.Tallies w.remaining w.steps.length := by
  obtain ⟨last, hyields, -⟩ := w.exists_yields_steps
  rw [← sum_length_steps]
  exact hyields.tallies

end Walk

/-- Summaries compose along the code. If a walk through some code never wants for bytes, then the
summary of that code with more behind it is the merge of the summaries of both, wherever the second
part is walked through, and words hold the counts as long as they hold the number of bytes. A
summary counts every byte of the data once and every step either as an instruction of one to fifteen
bytes or as an error of one byte. Merging is associative and commutative and the empty summary does
not change anything, also in words, where the counts can become too large. -/
theorem summaries_compose (d : Decoder) :
    (∀ (code more : List Byte) (next : Decoder), next.mode = d.mode →
      (∀ s ∈ (d.walk code).steps, s.result ≠ .error .insufficientLength) →
      (d.walk (code ++ more)).summary = (d.walk code).summary.merge (next.walk more).summary ∧
        ((code ++ more).length < 2 ^ 64 →
          (d.walk code).summary.mergeInWords (next.walk more).summary =
            .ok (d.walk (code ++ more)).summary)) ∧
    (∀ data, (d.walk data).summary.bytes = data.length ∧
      (d.walk data).summary.instructions + (d.walk data).summary.errors =
        (d.walk data).steps.length ∧
      (d.walk data).summary.instructions + (d.walk data).summary.errors ≤
        (d.walk data).summary.bytes ∧
      (d.walk data).summary.bytes ≤
        15 * (d.walk data).summary.instructions + (d.walk data).summary.errors) ∧
    (∀ s t u : Summary, (s.merge t).merge u = s.merge (t.merge u) ∧
      (s.mergeInWords t >>= fun r => r.mergeInWords u) =
        (t.mergeInWords u >>= fun r => s.mergeInWords r)) ∧
    (∀ s t : Summary, s.merge t = t.merge s ∧ s.mergeInWords t = t.mergeInWords s) ∧
    ∀ s : Summary, Summary.empty.merge s = s ∧
      (s.fitsInWords = true → Summary.empty.mergeInWords s = .ok s) := by
  refine ⟨fun code more next hmode hsteps => ?_, fun data => ?_,
    fun s t u => ⟨s.merge_assoc t u, s.mergeInWords_assoc t u⟩,
    fun s t => ⟨s.merge_comm t, s.mergeInWords_comm t⟩,
      fun s => ⟨s.empty_merge, Summary.empty_mergeInWords⟩⟩
  · have hsummary :
        (d.walk (code ++ more)).summary = (d.walk code).summary.merge (next.walk more).summary := by
      rw [Decoder.walk, Decoder.walk, Decoder.walk, hmode]
      exact Walk.summary_append d.mode d.address next.address code more hsteps
    refine ⟨hsummary, fun hlt => ?_⟩
    rw [Summary.mergeInWords, ← hsummary,
      if_pos ((d.walk (code ++ more)).tallies_summary.fitsInWords hlt)]
  · obtain ⟨hbytes, hcount, hlow, hhigh⟩ := (d.walk data).tallies_summary
    exact ⟨hbytes, hcount, hlow, hhigh⟩

/-- Code in which a byte that starts no instruction is passed by. -/
def resyncedCode : List Byte := [0x55, 0x48, 0x89, 0xe5, 0x0f, 0xff, 0xc3]

/-- A call that is cut off stands behind the code, and counts as two errors there as it does
alone. -/
theorem summaries_compose_resynced :
    (∀ s ∈ ((Decoder.mk .long64 0x1000 .default).walk resyncedCode).steps,
      s.result ≠ .error .insufficientLength) ∧
      ((Decoder.mk .long64 0x1000 .default).walk (resyncedCode ++ [0xe8, 0x01])).summary =
        Summary.merge ⟨3, 7, 0, 1, 0, 0⟩ ⟨0, 2, 2, 0, 0, 0⟩ := by
  have hsteps : ∀ s ∈ ((Decoder.mk .long64 0x1000 .default).walk resyncedCode).steps,
      s.result ≠ .error .insufficientLength := by
    have hall : (((Decoder.mk .long64 0x1000 .default).walk resyncedCode).steps.all fun s =>
        decide (s.result ≠ .error .insufficientLength)) = true := by decide +kernel
    exact fun s hs => of_decide_eq_true (List.all_eq_true.mp hall s hs)
  have hcode : ((Decoder.mk .long64 0x1000 .default).walk resyncedCode).summary =
      ⟨3, 7, 0, 1, 0, 0⟩ := by decide +kernel
  have hmore : ((Decoder.mk .long64 0 .default).walk [0xe8, 0x01]).summary =
      ⟨0, 2, 2, 0, 0, 0⟩ := by decide +kernel
  have hcompose := (summaries_compose ⟨.long64, 0x1000, .default⟩).1 resyncedCode [0xe8, 0x01]
    ⟨.long64, 0, .default⟩ rfl hsteps
  rw [hcode, hmore] at hcompose
  exact ⟨hsteps, hcompose.1⟩

end LengthDisasm
