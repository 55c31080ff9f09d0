import Mathlib.Data.List.TakeWhile
import LengthDisasm.Listing.Text

/-!
# Texts of a listing that part

Two texts part if no texts put after them make them equal. Lines of a listing for different
addresses part, as do a line, a label and the mark of a skipped run, and the messages of different
errors. So a difference between two listings is not made up for by what follows it.

## Main definitions

* `Text.Parts` — two texts differ whatever follows them

## Main results

* `Text.toDigits_injective` — a number is told by its hexadecimal digits
* `Presentation.parts_margin` — lines for different addresses part
* `Presentation.parts_body_error` — lines for different errors part
-/

namespace LengthDisasm

namespace Text

/-- Two texts differ whatever follows them. -/
def Parts (s t : String) : Prop := ∀ u v : String, s ++ u ≠ t ++ v

namespace Parts

variable {s t : String}

theorem symm (h : Parts s t) : Parts t s := fun u v heq => h v u heq.symm

theorem append (h : Parts s t) (u v : String) : Parts (s ++ u) (t ++ v) := by
  intro u' v' heq
  rw [String.append_assoc, String.append_assoc] at heq
  exact h _ _ heq

theorem append_left (h : Parts s t) (p : String) : Parts (p ++ s) (p ++ t) := by
  intro u v heq
  rw [String.append_assoc, String.append_assoc, String.append_right_inj] at heq
  exact h u v heq

/-- Texts part if some function of their characters tells them apart whatever follows. -/
theorem of_toList {α : Type} (f : List Char → α) {x y : α} (hxy : x ≠ y)
    (hs : ∀ u, f (s.toList ++ u) = x) (ht : ∀ u, f (t.toList ++ u) = y) : Parts s t := by
  intro u v heq
  have hlist := congrArg String.toList heq
  rw [String.toList_append, String.toList_append] at hlist
  exact hxy ((hs u.toList).symm.trans ((congrArg f hlist).trans (ht v.toList)))

end Parts

/-! ### Hexadecimal digits -/

theorem exists_digit_of_mem_toDigits {n : Nat} {c : Char} (h : c ∈ Nat.toDigits 16 n) :
    ∃ d < 16, c = Nat.digitChar d := by
  induction n using Nat.strongRecOn with
  | ind n ih =>
    rw [Nat.toDigits_eq_if (by decide)] at h
    split at h
    · rename_i hlt
      exact ⟨n, hlt, List.mem_singleton.mp h⟩
    · rcases List.mem_append.mp h with h | h
      · exact ih (n / 16) (by omega) h
      · exact ⟨n % 16, by omega, List.mem_singleton.mp h⟩

theorem digitChar_inj {m n : Nat} (hm : m < 16) (hn : n < 16)
    (h : Nat.digitChar m = Nat.digitChar n) :
    m = n := by
  have hall : ∀ m n : Fin 16, Nat.digitChar m = Nat.digitChar n → m = n := by decide
  exact congrArg Fin.val (hall ⟨m, hm⟩ ⟨n, hn⟩ h)

theorem toDigits_injective {m n : Nat} (h : Nat.toDigits 16 m = Nat.toDigits 16 n) : m = n := by
  induction m using Nat.strongRecOn generalizing n with
  | ind m ih =>
    have hlast : ∀ (ds : List Char) (d e : Char), [e] = ds ++ [d] → ds = [] := by
      intro ds d e heq
      have hlength := congrArg List.length heq
      simpa using hlength
    rw [Nat.toDigits_eq_if (by decide), Nat.toDigits_eq_if (b := 16) (n := n) (by decide)] at h
    split at h
    · split at h
      · exact digitChar_inj (by assumption) (by assumption) (List.singleton_inj.mp h)
      · exact absurd (hlast _ _ _ h) Nat.toDigits_ne_nil
    · split at h
      · exact absurd (hlast _ _ _ h.symm) Nat.toDigits_ne_nil
      · -- the last digits agree, and so do the numbers without them
        obtain ⟨hinit, hdigit⟩ := List.append_inj' h rfl
        have hquotient := ih (m / 16) (by omega) hinit
        have hrest := digitChar_inj (by omega) (by omega) (List.singleton_inj.mp hdigit)
        omega

/-- Digits are not among the characters that stand around them. -/
theorem ne_of_mem_toDigits {n : Nat} {c : Char} (h : c ∈ Nat.toDigits 16 n) :
    c ≠ ' ' ∧ c ≠ ':' ∧ c ≠ '\t' ∧ c ≠ '\n' := by
  have hall : ∀ d : Fin 16, Nat.digitChar d ≠ ' ' ∧ Nat.digitChar d ≠ ':' ∧
      Nat.digitChar d ≠ '\t' ∧ Nat.digitChar d ≠ '\n' := by decide
  obtain ⟨d, hd, rfl⟩ := exists_digit_of_mem_toDigits h
  exact hall ⟨d, hd⟩

end Text

namespace Presentation

open Text

/-- The characters of the address at the start of a line. -/
def addressOf (line : List Char) : List Char :=
  (line.dropWhile (· == ' ')).takeWhile (· != ':')

theorem toList_margin (a b : Address) :
    ∃ n,
      (margin a b).toList = List.replicate n ' ' ++ (Nat.toDigits 16 b.toNat ++ [':', '\t']) := by
  refine ⟨(if 0x1000 ≤ a.toNat then 8 else 4) - (hex b.toNat).length, ?_⟩
  simp only [margin, padLeft, hex, String.toList_append, String.toList_ofList, List.append_assoc]
  rfl

/-- The address can be read off a line. -/
theorem addressOf_margin (a b : Address) (rest : List Char) :
    addressOf ((margin a b).toList ++ rest) = Nat.toDigits 16 b.toNat := by
  obtain ⟨n, hmargin⟩ := toList_margin a b
  obtain ⟨c, cs, hdigits⟩ :=
    List.exists_cons_of_ne_nil (Nat.toDigits_ne_nil (n := b.toNat) (b := 16))
  have hspace : c ≠ ' ' := (ne_of_mem_toDigits (hdigits ▸ List.mem_cons_self)).1
  have hdrop : ((margin a b).toList ++ rest).dropWhile (· == ' ') =
      Nat.toDigits 16 b.toNat ++ (':' :: '\t' :: rest) := by
    rw [hmargin, List.append_assoc, List.dropWhile_append_of_pos (by simp), hdigits]
    simp [hspace]
  rw [addressOf, hdrop, List.takeWhile_append_of_pos]
  · simp
  · intro d hd
    simpa using (ne_of_mem_toDigits hd).2.1

/-- A line starts with neither of the characters that labels and marks of skipped runs start
with. -/
theorem head?_margin (a b : Address) (rest : List Char) :
    ∃ c, ((margin a b).toList ++ rest).head? = some c ∧ c ≠ '\t' ∧ c ≠ '\n' := by
  obtain ⟨n, hmargin⟩ := toList_margin a b
  rw [hmargin]
  cases n with
  | zero =>
    obtain ⟨c, cs, hdigits⟩ :=
      List.exists_cons_of_ne_nil (Nat.toDigits_ne_nil (n := b.toNat) (b := 16))
    refine ⟨c, ?_, (ne_of_mem_toDigits (hdigits ▸ List.mem_cons_self)).2.2⟩
    rw [hdigits]
    rfl
  | succ n => exact ⟨' ', rfl, by decide, by decide⟩

theorem parts_margin {a b : Address} (h : a ≠ b) : Parts (margin a a) (margin b b) := by
  refine Parts.of_toList addressOf ?_ (addressOf_margin a a) (addressOf_margin b b)
  intro heq
  exact h (BitVec.eq_of_toNat_eq (toDigits_injective heq))

/-- What starts with a tab or a line feed is no line. -/
theorem parts_margin_of_head? {s : String} {c : Char} (hs : s.toList.head? = some c)
    (hc : c = '\t' ∨ c = '\n') (a : Address) : Parts s (margin a a) := by
  refine Parts.of_toList (fun l => decide (l.head? = some '\t' ∨ l.head? = some '\n'))
    Bool.true_eq_false.mp (fun u => ?_) fun u => ?_
  · rw [List.head?_append, hs]
    simpa using hc
  · obtain ⟨c, hhead, htab, hline⟩ := head?_margin a a u
    simp [hhead, htab, hline]

/-- The line of an item that is decoded starts with its address. -/
theorem exists_body_decoded (p : Presentation) (showRaw : Bool) (a : Address) (bytes : List Byte)
    (result : Except DecodeError Instruction) :
    ∃ rest, p.body showRaw a (.decoded bytes result) = margin a a ++ rest := by
  cases showRaw with
  | true =>
    simp only [body, if_true, String.append_assoc]
    exact ⟨_, rfl⟩
  | false =>
    simp only [body, Bool.false_eq_true, if_false, String.append_assoc]
    exact ⟨_, rfl⟩

theorem parts_body_elided_decoded (p : Presentation) (showRaw : Bool) (a : Address) (count : Nat)
    (bytes : List Byte) (result : Except DecodeError Instruction) :
    Parts (p.body showRaw a (.elided count)) (p.body showRaw a (.decoded bytes result)) := by
  obtain ⟨rest, hbody⟩ := p.exists_body_decoded showRaw a bytes result
  have hmark : ("\t...\n" : String).toList.head? = some '\t' := by decide
  have hparts := (parts_margin_of_head? hmark (.inl rfl) a).append "" rest
  rwa [String.append_empty, ← hbody] at hparts

theorem parts_message {e e' : DecodeError} (h : e ≠ e') : Parts e.message e'.message := by
  have hall : ∀ e : DecodeError, ∀ u : List Char,
      (e.message.toList ++ u).take 3 = e.message.toList.take 3 := by
    intro e u
    cases e <;> rfl
  -- three letters tell the messages apart
  refine Parts.of_toList (List.take 3) ?_ (hall e) (hall e')
  cases e <;> cases e' <;> first | exact absurd rfl h | decide

/-- Lines for different errors at the same bytes part. -/
theorem parts_body_error (p : Presentation) (showRaw : Bool) (a : Address) (bytes : List Byte)
    {e e' : DecodeError} (h : e ≠ e') :
    Parts (p.body showRaw a (.decoded bytes (.error e)))
      (p.body showRaw a (.decoded bytes (.error e'))) := by
  -- both lines agree up to the message
  cases showRaw with
  | true =>
    simp only [body, if_true, decoded, DecodeError.line, Theme.wrap, String.append_assoc]
    repeat refine Parts.append_left ?_ _
    exact (parts_message h).append _ _
  | false =>
    simp only [body, Bool.false_eq_true, if_false, decoded, DecodeError.line, Theme.wrap,
      String.append_assoc]
    repeat refine Parts.append_left ?_ _
    exact (parts_message h).append _ _

end Presentation

end LengthDisasm
