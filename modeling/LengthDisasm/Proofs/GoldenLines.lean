import LengthDisasm.Proofs.Numerals
import LengthDisasm.Proofs.TextParts

/-!
# Lines of golden files

A case is written on a line, as an address with a colon if there is one, the bytes with single
blanks between them, two blanks, the expected text and perhaps a comment. Reading such a line gives
the case, though the expected text may look like bytes or hold a colon: the two blanks end the
bytes, and what stands before the first colon is no address if there is a blank in it.

## Main definitions

* `Golden.Entry` — a case as it is written, in either kind of letters
* `Golden.Entry.line`, `Golden.Entry.toCase` — the line and the case that is to be read from it

## Main results

* `Case.exists_readAddress`, `Case.exists_readBytes` — addresses and bytes are read from all texts
* `Golden.Entry.fill_body` — the case is read back
-/

namespace LengthDisasm

namespace Case

/-! ### Addresses -/

/-- An address is always read: sixteen digits are no more than 64 bits. -/
theorem exists_readAddress (text : List Char) : ∃ result, readAddress text = .ok result := by
  unfold readAddress
  split
  · rename_i digits rest hsplit
    split
    · rename_i hdigits
      simp only [Bool.and_eq_true, Bool.not_eq_true', List.isEmpty_eq_false_iff, decide_eq_true_eq,
        List.all_eq_true] at hdigits
      obtain ⟨⟨hne, hlen⟩, hall⟩ := hdigits
      have hbound : 16 ^ digits.length ≤ UInt64.size :=
        Nat.le_trans (Nat.pow_le_pow_right (by decide) hlen) (by decide)
      obtain ⟨address, hread⟩ := Text.exists_ofDigits? hne hall hbound
      rw [hread]
      exact ⟨_, rfl⟩
    · exact ⟨_, rfl⟩
  · exact ⟨_, rfl⟩

theorem readAddress_of_not_mem {text : List Char} (h : ':' ∉ text) :
    readAddress text = .ok (0, text) := by
  rw [readAddress, Text.splitAt?_eq_none h]

/-- A blank before the first colon tells that no address stands there. -/
theorem readAddress_of_blank {front : List Char} (h : ':' ∉ front) (rest : List Char) :
    readAddress (front ++ ' ' :: rest) = .ok (0, front ++ ' ' :: rest) := by
  by_cases hcolon : ':' ∈ rest
  · obtain ⟨before, after, rfl, hbefore⟩ := List.eq_append_cons_of_mem hcolon
    -- the text before the first colon holds the blank, so it is not all digits
    have hfirst : ':' ∉ front ++ ' ' :: before := by simp [h, hbefore]
    have hdigits : (front ++ ' ' :: before).all Text.isHexDigit = false := by
      rw [List.all_append, List.all_cons, show Text.isHexDigit ' ' = false by decide,
        Bool.false_and, Bool.and_false]
    rw [readAddress, ← List.cons_append, ← List.append_assoc, Text.splitAt?_append hfirst]
    simp only [hdigits, Bool.and_false, Bool.false_eq_true, if_false]
  · exact readAddress_of_not_mem (by simp [h, hcolon])

/-- A numeral before a colon is the address. -/
theorem readAddress_numeral (capital : Bool) {width : Nat} (hwidth : width ≤ 16) (a : Address)
    {rest : List Char} (hrest : ∀ x ∈ rest.head?, Text.isBlank x = false) :
    readAddress (Text.numeral capital width a.toNat ++ ':' :: ' ' :: rest) =
      .ok (a.toNat, rest) := by
  have hdigit : ∀ c ∈ Text.numeral capital width a.toNat, Text.isHexDigit c = true :=
    fun c hc => Text.isHexDigit_of_mem_numeral hc
  have hcolon : ':' ∉ Text.numeral capital width a.toNat :=
    fun hmem => absurd (hdigit ':' hmem) (by decide)
  obtain ⟨hpos, hlen⟩ := Text.length_numeral capital hwidth a.isLt
  have hblank : Text.trimStart (' ' :: rest) = rest :=
    Text.dropWhile_append_of_stops (Text.isBlank_of_mem_replicate 1) hrest
  have hcondition : (!(Text.numeral capital width a.toNat).isEmpty &&
      decide ((Text.numeral capital width a.toNat).length ≤ 16) &&
      (Text.numeral capital width a.toNat).all Text.isHexDigit) = true := by
    simp only [Bool.and_eq_true, Bool.not_eq_true', List.isEmpty_eq_false_iff, decide_eq_true_eq,
      List.all_eq_true]
    exact ⟨⟨List.length_pos_iff.mp hpos, hlen⟩, hdigit⟩
  have hword : a.toNat < UInt64.size := a.isLt
  rw [readAddress, Text.splitAt?_append hcolon]
  simp only [hcondition, if_true, Text.ofDigits?_numeral capital width hword, hblank]

/-! ### Bytes -/

theorem readBytes_nil : readBytes [] = .ok ([], []) := by
  rw [readBytes]
  simp

/-- Bytes are always read: digits are taken in pairs. -/
theorem exists_readBytes (text : List Char) : ∃ result, readBytes text = .ok result := by
  fun_induction readBytes text with
  | case1 text digits h => exact ⟨_, rfl⟩
  | case2 text digits h hnone =>
    have hdigit : ∀ c ∈ digits, Text.isHexDigit c = true := List.all_eq_true.mp List.all_takeWhile
    obtain ⟨bytes, hbytes⟩ := exists_pairs? hdigit (by omega)
    rw [hbytes] at hnone
    cases hnone
  | case3 text digits h bytes hbytes rest hblank => exact ⟨_, rfl⟩
  | case4 text digits h bytes hbytes rest hblank ih =>
    obtain ⟨result, hresult⟩ := ih
    rw [hresult]
    exact ⟨_, rfl⟩

/-- A pair of digits that no digit follows is a byte; a single blank after it lets more bytes
follow. -/
theorem readBytes_pair (capital : Bool) (b : Byte) {rest : List Char}
    (hrest : ∀ x ∈ rest.head?, Text.isHexDigit x = false) :
    readBytes (Text.bytePair capital b ++ rest) =
      if (rest.takeWhile Text.isBlank).length > 1 then .ok ([b], Text.trimStart rest)
      else (readBytes (Text.trimStart rest)).map fun r => (b :: r.1, r.2) := by
  have hdigit : ∀ c ∈ Text.bytePair capital b, Text.isHexDigit c = true :=
    fun c hc => Text.isHexDigit_of_mem_bytePair hc
  have htake : (Text.bytePair capital b ++ rest).takeWhile Text.isHexDigit =
      Text.bytePair capital b :=
    Text.takeWhile_append_of_stops hdigit hrest
  have hdrop : (Text.bytePair capital b ++ rest).dropWhile Text.isHexDigit = rest :=
    Text.dropWhile_append_of_stops hdigit hrest
  have hlength : (Text.bytePair capital b).length = 2 := by rw [Text.bytePair_eq]; rfl
  rw [readBytes]
  simp only [htake, hdrop, hlength, pairs?_bytePair]
  simp only [Nat.lt_irrefl, Nat.mod_self, ne_eq, not_true, or_self, dif_neg, not_false_eq_true]
  split
  · rfl
  · cases readBytes (Text.trimStart rest) <;> rfl

end Case

namespace Golden

/-! ### Bytes as they are written -/

/-- Bytes with single blanks between them. -/
def bytesText (capital : Bool) : List Byte → List Char
  | [] => []
  | [b] => Text.bytePair capital b
  | b :: bytes => Text.bytePair capital b ++ ([' '] ++ bytesText capital bytes)

section Bytes

variable (capital : Bool) {bytes : List Byte}

theorem bytePair_ne_nil (b : Byte) : Text.bytePair capital b ≠ [] := by
  rw [Text.bytePair_eq]
  exact List.cons_ne_nil _ _

theorem isTrimmed_of_isHexDigit {text : List Char} (h : ∀ c ∈ text, Text.isHexDigit c = true) :
    Text.IsTrimmed text where
  head x hx := Text.isBlank_of_isHexDigit (h x (List.mem_of_head? hx))
  last x hx := Text.isBlank_of_isHexDigit (h x (List.mem_of_getLast? hx))

theorem isTrimmed_bytePair (b : Byte) : Text.IsTrimmed (Text.bytePair capital b) :=
  isTrimmed_of_isHexDigit fun _ hc => Text.isHexDigit_of_mem_bytePair hc

theorem bytesText_ne_nil (hne : bytes ≠ []) : bytesText capital bytes ≠ [] := by
  match bytes with
  | [] => exact absurd rfl hne
  | [b] => exact bytePair_ne_nil capital b
  | b :: b' :: bytes => exact List.append_ne_nil_of_left_ne_nil (bytePair_ne_nil capital b) _

theorem isTrimmed_bytesText (hne : bytes ≠ []) : Text.IsTrimmed (bytesText capital bytes) := by
  fun_induction bytesText capital bytes with
  | case1 => exact absurd rfl hne
  | case2 b => exact isTrimmed_bytePair capital b
  | case3 b bytes hmore ih =>
    have hbytes : bytes ≠ [] := fun hnil => hmore hnil
    exact (isTrimmed_bytePair capital b).join (ih hbytes) (bytePair_ne_nil capital b)
      (bytesText_ne_nil capital hbytes) [' ']

theorem isHexDigit_of_mem_bytesText {c : Char} (h : c ∈ bytesText capital bytes) :
    Text.isHexDigit c = true ∨ c = ' ' := by
  fun_induction bytesText capital bytes with
  | case1 => cases h
  | case2 b => exact .inl (Text.isHexDigit_of_mem_bytePair h)
  | case3 b bytes hmore ih =>
    rcases List.mem_append.mp h with hpair | h
    · exact .inl (Text.isHexDigit_of_mem_bytePair hpair)
    · rcases List.mem_append.mp h with hblank | hbytes
      · exact .inr (List.mem_singleton.mp hblank)
      · exact ih hbytes

/-- The bytes are read up to the two blanks that end them, or up to the end. -/
theorem readBytes_bytesText (hne : bytes ≠ []) {tail : List Char}
    (htail : tail = [] ∨ ∃ rest, tail = ' ' :: ' ' :: rest) :
    Case.readBytes (bytesText capital bytes ++ tail) = .ok (bytes, Text.trimStart tail) := by
  fun_induction bytesText capital bytes with
  | case1 => exact absurd rfl hne
  | case2 b =>
    rcases htail with rfl | ⟨rest, rfl⟩
    · rw [Case.readBytes_pair capital b (by simp), if_neg (by decide), Text.trimStart,
        List.dropWhile_nil, Case.readBytes_nil]
      rfl
    · rw [Case.readBytes_pair capital b (by simp; decide), if_pos]
      rw [List.takeWhile_cons_of_pos (by decide), List.takeWhile_cons_of_pos (by decide),
        List.length_cons, List.length_cons]
      omega
  | case3 b bytes hmore ih =>
    have hbytes : bytes ≠ [] := fun hnil => hmore hnil
    have hspace : ∀ x ∈ [' '], Text.isBlank x = true := Text.isBlank_of_mem_replicate 1
    have hhead : ∀ x ∈ (bytesText capital bytes ++ tail).head?, Text.isBlank x = false := by
      obtain ⟨x, text, htext⟩ := List.exists_cons_of_ne_nil (bytesText_ne_nil capital hbytes)
      have htrimmed := (isTrimmed_bytesText capital hbytes).head
      rw [htext] at htrimmed ⊢
      exact htrimmed
    -- a single blank stands before the next byte
    have hblanks : ([' '] ++ (bytesText capital bytes ++ tail)).takeWhile Text.isBlank = [' '] :=
      Text.takeWhile_append_of_stops hspace hhead
    have hnext : Text.trimStart ([' '] ++ (bytesText capital bytes ++ tail)) =
        bytesText capital bytes ++ tail :=
      Text.dropWhile_append_of_stops hspace hhead
    rw [List.append_assoc, List.append_assoc,
      Case.readBytes_pair capital b (by simp; decide), hblanks, if_neg (by decide),
      hnext, ih hbytes]
    rfl

end Bytes

/-! ### Cases as they are written -/

/-- A case as it is written on a line. The expected text and the comment fit on the line, and the
text ends before the comment. -/
structure Entry where
  /-- The address, if one is written. -/
  address : Option Address
  bytes : List Byte
  /-- The text that decoding must give. -/
  expected : String
  /-- The comment, if there is one. -/
  comment : Option String
  /-- Digits above nine are capital letters. -/
  capital : Bool
  /-- The address has zeros in front up to so many digits. -/
  width : Nat
  bytes_ne_nil : bytes ≠ []
  isTrimmed_expected : Text.IsTrimmed expected.toList
  plain_expected : '#' ∉ expected.toList ∧ '\n' ∉ expected.toList
  isTrimmed_comment : ∀ text ∈ comment, Text.IsTrimmed text.toList
  plain_comment : ∀ text ∈ comment, '\n' ∉ text.toList
  width_le : width ≤ 16

namespace Entry

/-- The case without a comment, its digits in small letters and as few as they can be. -/
def uncommented (address : Option Address) (bytes : List Byte) (expected : String)
    (hne : bytes ≠ [])
    (htrimmed : Text.IsTrimmed expected.toList)
    (hplain : '#' ∉ expected.toList ∧ '\n' ∉ expected.toList) : Entry where
  address := address
  bytes := bytes
  expected := expected
  comment := none
  capital := false
  width := 0
  bytes_ne_nil := hne
  isTrimmed_expected := htrimmed
  plain_expected := hplain
  isTrimmed_comment := nofun
  plain_comment := nofun
  width_le := Nat.zero_le _

variable (e : Entry)

/-- The address and a colon. -/
def addressText : List Char :=
  match e.address with
  | some a => Text.numeral e.capital e.width a.toNat ++ [':', ' ']
  | none => []

/-- The comment behind a number sign. -/
def commentText : List Char :=
  match e.comment with
  | some text => [' ', '#', ' '] ++ text.toList
  | none => []

/-- What stands on the line before the comment. -/
def front : List Char :=
  e.addressText ++ (bytesText e.capital e.bytes ++ ([' ', ' '] ++ e.expected.toList))

/-- The line that the case is written on. -/
def line : List Char := e.front ++ e.commentText

/-- The case that is read from a line with this number. -/
def toCase (number : Nat) : Case where
  line := number
  comment := e.comment.getD ""
  address := (e.address.map BitVec.toNat).getD 0
  bytes := e.bytes
  expected := e.expected

/-- The two blanks and the expected text, unless there is none. -/
def tail : List Char := if e.expected.toList = [] then [] else [' ', ' '] ++ e.expected.toList

/-- What stands on the line before the comment, without blanks at the end. -/
def body : List Char := e.addressText ++ (bytesText e.capital e.bytes ++ e.tail)

theorem isTrimmed_bytes_tail : Text.IsTrimmed (bytesText e.capital e.bytes ++ e.tail) := by
  have hbytes := isTrimmed_bytesText e.capital e.bytes_ne_nil
  unfold tail
  split
  · rwa [List.append_nil]
  · rename_i hne
    exact hbytes.join e.isTrimmed_expected (bytesText_ne_nil e.capital e.bytes_ne_nil) hne
      [' ', ' ']

theorem bytes_tail_ne_nil : bytesText e.capital e.bytes ++ e.tail ≠ [] :=
  List.append_ne_nil_of_left_ne_nil (bytesText_ne_nil e.capital e.bytes_ne_nil) _

theorem numeral_ne_nil (a : Address) : Text.numeral e.capital e.width a.toNat ≠ [] :=
  List.length_pos_iff.mp (Text.length_numeral e.capital e.width_le a.isLt).1

theorem isTrimmed_body : Text.IsTrimmed e.body := by
  unfold body addressText
  split
  · rename_i a ha
    rw [List.append_assoc]
    exact (isTrimmed_of_isHexDigit fun _ hc => Text.isHexDigit_of_mem_numeral hc).join
      e.isTrimmed_bytes_tail (e.numeral_ne_nil a) e.bytes_tail_ne_nil [':', ' ']
  · exact e.isTrimmed_bytes_tail

theorem trim_front : Text.trim e.front = e.body := by
  have hbody := e.isTrimmed_body.trim_eq
  unfold front body tail at *
  split at hbody
  · -- without a text the two blanks are trimmed off
    rename_i hnil
    have hblanks : ∀ x ∈ [' ', ' '], Text.isBlank x = true := Text.isBlank_of_mem_replicate 2
    rw [if_pos hnil, hnil, List.append_nil, ← List.append_assoc, Text.trim_append_of_blank hblanks]
    rwa [List.append_nil] at hbody ⊢
  · rename_i hne
    rw [if_neg hne]
    exact hbody

theorem body_ne_nil : e.body ≠ [] := List.append_ne_nil_of_right_ne_nil _ e.bytes_tail_ne_nil

/-- The address is told from bytes and text. -/
theorem readAddress_body :
    Case.readAddress e.body =
      .ok ((e.address.map BitVec.toNat).getD 0, bytesText e.capital e.bytes ++ e.tail) := by
  unfold body addressText
  split
  · rename_i a ha
    rw [ha, List.append_assoc]
    exact Case.readAddress_numeral e.capital e.width_le a e.isTrimmed_bytes_tail.head
  · rename_i ha
    have hcolon : ':' ∉ bytesText e.capital e.bytes := fun hmem =>
      absurd (isHexDigit_of_mem_bytesText e.capital hmem) (by decide)
    rw [ha, List.nil_append]
    -- a colon can only stand in the expected text, behind the two blanks
    unfold tail
    split
    · rw [List.append_nil]
      exact Case.readAddress_of_not_mem hcolon
    · exact Case.readAddress_of_blank hcolon _

/-- A case is read back from its line, whatever case is held before. -/
theorem fill_body (held : Case) :
    Case.fill held e.body =
      (.ok (), { e.toCase held.line with comment := held.comment }) := by
  have htail : e.tail = [] ∨ ∃ rest, e.tail = ' ' :: ' ' :: rest := by
    unfold tail
    split
    · exact .inl rfl
    · exact .inr ⟨_, rfl⟩
  have hexpected : String.ofList (Text.trimEnd (Text.trimStart e.tail)) = e.expected := by
    have hblanks : ∀ x ∈ [' ', ' '], Text.isBlank x = true := Text.isBlank_of_mem_replicate 2
    unfold tail
    split
    · rename_i hnil
      rw [← String.ofList_toList (s := e.expected), hnil]
      rfl
    · rw [Text.trimStart_append_of_blank hblanks, ← Text.trim, e.isTrimmed_expected.trim_eq,
        String.ofList_toList]
  have hbytes : e.bytes.isEmpty = false := List.isEmpty_eq_false_iff.mpr e.bytes_ne_nil
  rw [Case.fill, e.readAddress_body]
  simp only [readBytes_bytesText e.capital e.bytes_ne_nil htail, hbytes, Bool.false_eq_true,
    if_false, hexpected, toCase]

/-! ### The line as a whole -/

theorem not_mem_addressText {c : Char} (hdigit : Text.isHexDigit c = false)
    (hmarks : c ∉ [':', ' ']) :
    c ∉ e.addressText := by
  unfold addressText
  split
  · intro hmem
    rcases List.mem_append.mp hmem with hnumeral | hmark
    · rw [Text.isHexDigit_of_mem_numeral hnumeral] at hdigit
      cases hdigit
    · exact hmarks hmark
  · nofun

theorem not_mem_front {c : Char} (hdigit : Text.isHexDigit c = false) (hmarks : c ∉ [':', ' '])
    (hexpected : c ∉ e.expected.toList) : c ∉ e.front := by
  have hblank : c ≠ ' ' := fun heq => hmarks (by simp [heq])
  have hbytes : c ∉ bytesText e.capital e.bytes := by
    intro hmem
    rcases isHexDigit_of_mem_bytesText e.capital hmem with h | h
    · rw [h] at hdigit
      cases hdigit
    · exact hblank h
  simp [front, e.not_mem_addressText hdigit hmarks, hbytes, hblank, hexpected]

/-- The case is on one line. -/
theorem newline_not_mem_line : '\n' ∉ e.line := by
  have hfront := e.not_mem_front (c := '\n') (by decide) (by decide) e.plain_expected.2
  have hcomment : '\n' ∉ e.commentText := by
    unfold commentText
    split
    · rename_i text htext
      simp [e.plain_comment text htext]
    · nofun
  simp [line, hfront, hcomment]

/-- The line ends in a blank and a trimmed text, which is the comment or the expected text. -/
theorem exists_line_eq :
    ∃ start text, Text.IsTrimmed text ∧ e.line = start ++ ([' '] ++ text) := by
  unfold line commentText
  split
  · rename_i text htext
    exact ⟨e.front ++ [' ', '#'], text.toList, e.isTrimmed_comment text htext, by simp⟩
  · exact ⟨e.addressText ++ (bytesText e.capital e.bytes ++ [' ']), e.expected.toList,
      e.isTrimmed_expected, by simp [front]⟩

/-- No carriage return ends the line. -/
theorem last_line_ne : ∀ x ∈ e.line.getLast?, x ≠ '\r' := by
  obtain ⟨start, text, htext, hline⟩ := e.exists_line_eq
  rw [hline]
  refine Text.forall_getLast?_append (List.cons_ne_nil ' ' text) ?_ start
  by_cases hnil : text = []
  · rw [hnil]
    rintro x ⟨⟩
    decide
  · refine Text.forall_getLast?_append hnil ?_ [' ']
    rintro x hx rfl
    exact absurd (htext.last '\r' hx) (by decide)

/-- The line is divided into the case and its comment. -/
theorem splitComment_line :
    Text.trim (Case.splitComment e.line).1 = e.body ∧
      String.ofList (Text.trim (Case.splitComment e.line).2) = e.comment.getD "" := by
  have hfront := e.not_mem_front (c := '#') (by decide) (by decide) e.plain_expected.1
  have hblank : ∀ x ∈ [' '], Text.isBlank x = true := Text.isBlank_of_mem_replicate 1
  unfold line commentText Case.splitComment
  split
  · -- the first number sign is the one before the comment, which may hold others
    rename_i text htext
    have hbefore : '#' ∉ e.front ++ [' '] := by simp [hfront]
    rw [show e.front ++ ([' ', '#',
      ' '] ++ text.toList) = (e.front ++ [' ']) ++ '#' :: ([' '] ++ text.toList) by simp,
      Text.splitAt?_append hbefore]
    refine ⟨?_, ?_⟩
    · rw [Option.getD_some, Text.trim_append_of_blank hblank, e.trim_front]
    · rw [Option.getD_some, htext, Option.getD_some, Text.trim,
        Text.trimStart_append_of_blank hblank, ← Text.trim,
        (e.isTrimmed_comment text htext).trim_eq, String.ofList_toList]
  · rename_i hnone
    rw [List.append_nil, Text.splitAt?_eq_none hfront, hnone]
    exact ⟨e.trim_front, rfl⟩

end Entry

end Golden

end LengthDisasm
