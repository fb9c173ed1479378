import Blkin.Decimal
import Blkin.Utf

/-!
# JSON objects in ASCII

The texts of objects whose members are strings, integers or `null`, and a reader of them.
A string is written with escapes for whatever is not a printable ASCII character, and is
read from any escapes.

`readObject_objectText` : the reader gives the members back, in order, as long as their
strings are texts of characters.
-/

namespace Json

/-- `"` -/
def quote : UInt8 := 34

/-- `\` -/
def backslash : UInt8 := 92

inductive Scalar
  | null
  | int (n : ℤ)
  | str (s : List ℕ)
  deriving DecidableEq, Repr

abbrev Member := List ℕ × Scalar

/-! ## Texts -/

def hexDigit (n : ℕ) : UInt8 :=
  UInt8.ofNat (if n < 10 then 48 + n else 87 + n)

/-- Four hexadecimal digits. -/
def hex4 (u : ℕ) : List UInt8 :=
  [hexDigit (u / 4096 % 16), hexDigit (u / 256 % 16), hexDigit (u / 16 % 16), hexDigit (u % 16)]

/-- The characters with an escape of one letter, and the letters. -/
def escapes : List (ℕ × UInt8) :=
  [(34, quote), (92, backslash), (8, 98), (12, 102), (10, 110), (13, 114), (9, 116)]

/-- `\u` and a code unit. -/
def escapeUnit (u : ℕ) : List UInt8 :=
  backslash :: 117 :: hex4 u

/-- A code point inside of a string. -/
def escape (c : ℕ) : List UInt8 :=
  match escapes.lookup c with
  | some letter => [backslash, letter]
  | none => if 32 ≤ c ∧ c ≤ 126 then [UInt8.ofNat c] else (Utf16.units c).flatMap escapeUnit

def stringText (s : List ℕ) : List UInt8 :=
  quote :: (s.flatMap escape ++ [quote])

def intText (n : ℤ) : List UInt8 :=
  if n < 0 then 45 :: Decimal.text n.natAbs else Decimal.text n.natAbs

def Scalar.text : Scalar → List UInt8
  | null => [110, 117, 108, 108]
  | int n => intText n
  | str s => stringText s

/-- A member, with `: `. -/
def memberText (m : Member) : List UInt8 :=
  stringText m.1 ++ [58, 32] ++ m.2.text

/-- Members, with `, ` between them. -/
def membersText (m : Member) : List Member → List UInt8
  | [] => memberText m
  | m' :: ms => memberText m ++ [44, 32] ++ membersText m' ms

def objectText : List Member → List UInt8
  | [] => [123, 125]
  | m :: ms => 123 :: (membersText m ms ++ [125])

/-! ## The reader -/

def hexValue (b : UInt8) : Option ℕ :=
  if 48 ≤ b ∧ b ≤ 57 then some (b.toNat - 48)
  else if 97 ≤ b ∧ b ≤ 102 then some (b.toNat - 87)
  else if 65 ≤ b ∧ b ≤ 70 then some (b.toNat - 55)
  else none

/-- The code unit of four hexadecimal digits. -/
def ofHex4 (a b c d : UInt8) : Option ℕ := do
  some ((← hexValue a) * 4096 + (← hexValue b) * 256 + (← hexValue c) * 16 + (← hexValue d))

/-- The character of an escape of one letter. -/
def unescape (letter : UInt8) : Option ℕ :=
  ((47, 47) :: escapes.map Prod.swap).lookup letter

/-- The code units up to the quote that ends the string. -/
def readUnits : List UInt8 → Option (List ℕ × List UInt8)
  | [] => none
  | b :: bs =>
    if b = quote then some ([], bs)
    else if b = backslash then
      match bs with
      | 117 :: h₃ :: h₂ :: h₁ :: h₀ :: bs =>
        (ofHex4 h₃ h₂ h₁ h₀).bind fun u => (readUnits bs).map fun r => (u :: r.1, r.2)
      | letter :: bs =>
        (unescape letter).bind fun u => (readUnits bs).map fun r => (u :: r.1, r.2)
      | [] => none
    else if 32 ≤ b ∧ b < 128 then (readUnits bs).map fun r => (b.toNat :: r.1, r.2)
    else none

def readString : List UInt8 → Option (List ℕ × List UInt8)
  | b :: bs => if b = quote then (readUnits bs).map fun r => (Utf16.join r.1, r.2) else none
  | [] => none

/-- A number without leading zeros. -/
def readNat (bs : List UInt8) : Option (ℕ × List UInt8) :=
  let digits := bs.takeWhile Decimal.isDigit
  (Decimal.value digits).bind fun n =>
    if Decimal.text n = digits then some (n, bs.dropWhile Decimal.isDigit) else none

def readScalar : List UInt8 → Option (Scalar × List UInt8)
  | 110 :: 117 :: 108 :: 108 :: bs => some (.null, bs)
  | 45 :: bs => (readNat bs).map fun r => (.int (-(r.1 : ℤ)), r.2)
  | 34 :: bs => (readString (34 :: bs)).map fun r => (.str r.1, r.2)
  | bs => (readNat bs).map fun r => (.int r.1, r.2)

def isSpace (b : UInt8) : Bool :=
  b = 32 || b = 9 || b = 10 || b = 13

def skip (bs : List UInt8) : List UInt8 :=
  bs.dropWhile isSpace

def readMember (bs : List UInt8) : Option (Member × List UInt8) :=
  (readString bs).bind fun key =>
  match skip key.2 with
  | 58 :: bs => (readScalar (skip bs)).map fun value => ((key.1, value.1), value.2)
  | _ => none

/-- Members up to the brace that ends the object, at most as many as `fuel`. -/
def readMembers : ℕ → List UInt8 → Option (List Member × List UInt8)
  | 0, _ => none
  | fuel + 1, bs =>
    (readMember bs).bind fun m =>
    match skip m.2 with
    | 44 :: bs => (readMembers fuel (skip bs)).map fun r => (m.1 :: r.1, r.2)
    | 125 :: bs => some ([m.1], bs)
    | _ => none

/-- The members of an object that is the whole text. -/
def readObject (bs : List UInt8) : Option (List Member) :=
  match skip bs with
  | 123 :: bs =>
    match skip bs with
    | 125 :: bs => if skip bs = [] then some [] else none
    | bs => (readMembers bs.length bs).bind fun r => if skip r.2 = [] then some r.1 else none
  | _ => none

/-! ## Strings are read back -/

theorem hexValue_hexDigit : ∀ n < 16, hexValue (hexDigit n) = some n := by
  decide

theorem readUnits_quote (bs : List UInt8) : readUnits (quote :: bs) = some ([], bs) := by
  rw [readUnits.eq_def]
  exact if_pos rfl

theorem readUnits_plain {b : UInt8} (hquote : b ≠ quote) (hbackslash : b ≠ backslash)
    (hb : 32 ≤ b ∧ b < 128) (bs : List UInt8) :
    readUnits (b :: bs) = (readUnits bs).map fun r => (b.toNat :: r.1, r.2) := by
  rw [readUnits.eq_def]
  dsimp only
  rw [if_neg hquote, if_neg hbackslash, if_pos hb]

theorem readUnits_letter {letter : UInt8} {u : ℕ} (hletter : unescape letter = some u)
    (hne : letter ≠ 117) (bs : List UInt8) :
    readUnits (backslash :: letter :: bs) = (readUnits bs).map fun r => (u :: r.1, r.2) := by
  rw [readUnits.eq_def]
  dsimp only
  rw [if_neg (by decide), if_pos rfl]
  split
  · rename_i heq
    exact absurd (List.cons.inj heq).1 hne
  · rename_i heq
    obtain ⟨rfl, rfl⟩ := List.cons.inj heq
    rw [hletter]
    rfl
  · rename_i heq
    cases heq

theorem readUnits_escapeUnit {u : ℕ} (hu : u < 0x10000) (bs : List UInt8) :
    readUnits (escapeUnit u ++ bs) = (readUnits bs).map fun r => (u :: r.1, r.2) := by
  have hhex : ofHex4 (hexDigit (u / 4096 % 16)) (hexDigit (u / 256 % 16)) (hexDigit (u / 16 % 16))
      (hexDigit (u % 16)) = some u := by
    rw [ofHex4, hexValue_hexDigit _ (by omega), hexValue_hexDigit _ (by omega),
      hexValue_hexDigit _ (by omega), hexValue_hexDigit _ (by omega)]
    show some (u / 4096 % 16 * 4096 + u / 256 % 16 * 256 + u / 16 % 16 * 16 + u % 16) = some u
    rw [Option.some.injEq]
    omega
  simp only [escapeUnit, hex4, List.cons_append, List.nil_append]
  rw [readUnits.eq_def]
  dsimp only
  rw [if_neg (by decide), if_pos rfl]
  show ((ofHex4 _ _ _ _).bind fun u => (readUnits bs).map fun r => (u :: r.1, r.2)) = _
  rw [hhex]
  rfl

theorem readUnits_escapeUnits : ∀ {us : List ℕ}, (∀ u ∈ us, u < 0x10000) → ∀ bs,
    readUnits (us.flatMap escapeUnit ++ bs) = (readUnits bs).map fun r => (us ++ r.1, r.2)
  | [], _, bs => by simp
  | u :: us, h, bs => by
    obtain ⟨hu, hus⟩ := List.forall_mem_cons.1 h
    rw [List.flatMap_cons, List.append_assoc, readUnits_escapeUnit hu, readUnits_escapeUnits hus,
      Option.map_map]
    rfl

/-- Every letter stands for its character alone, and none is the `u` of a code unit. -/
theorem of_mem_escapes :
    ∀ x ∈ escapes, unescape x.2 = some x.1 ∧ x.2 ≠ 117 ∧ x.1 < 0x10000 := by
  decide

theorem readUnits_escape {c : ℕ} (hc : c < 0x110000) (bs : List UInt8) :
    readUnits (escape c ++ bs) =
      (readUnits bs).map fun r => (Utf16.units c ++ r.1, r.2) := by
  unfold escape
  cases hletter : escapes.lookup c with
  | some letter =>
    obtain ⟨before, after, hsplit, -⟩ := List.lookup_eq_some_iff.1 hletter
    obtain ⟨hunescape, hne, hlt⟩ := of_mem_escapes (c, letter) (by simp [hsplit])
    rw [Utf16.units, if_pos hlt]
    exact readUnits_letter hunescape hne bs
  | none =>
    dsimp only
    split_ifs with hprint
    · have hbyte : (UInt8.ofNat c).toNat = c := Utf8.toNat_ofNat (by omega)
      have hnone := List.lookup_eq_none_iff.1 hletter
      have hquote : c ≠ 34 := by simpa using hnone (34, quote) (by decide)
      have hbackslash : c ≠ 92 := by simpa using hnone (92, backslash) (by decide)
      rw [List.cons_append, List.nil_append, readUnits_plain, hbyte, Utf16.units,
        if_pos (by omega)]
      · rfl
      · exact fun h => hquote (by rw [← hbyte, h]; rfl)
      · exact fun h => hbackslash (by rw [← hbyte, h]; rfl)
      · rw [UInt8.le_iff_toNat_le, UInt8.lt_iff_toNat_lt, hbyte]
        exact ⟨hprint.1, Nat.lt_succ_of_le (hprint.2.trans (by decide))⟩
    · exact readUnits_escapeUnits (fun u hu => Utf16.lt_of_mem_units hc hu) bs

theorem readUnits_string : ∀ {s : List ℕ}, (∀ c ∈ s, c < 0x110000) → ∀ bs,
    readUnits (s.flatMap escape ++ quote :: bs) = some (s.flatMap Utf16.units, bs)
  | [], _, bs => readUnits_quote bs
  | c :: s, h, bs => by
    obtain ⟨hc, hs⟩ := List.forall_mem_cons.1 h
    rw [List.flatMap_cons, List.append_assoc, readUnits_escape hc, readUnits_string hs,
      List.flatMap_cons]
    rfl

/-- A text of characters. -/
abbrev IsText (s : List ℕ) : Prop :=
  ∀ c ∈ s, Utf16.Scalar c

theorem readString_text {s : List ℕ} (h : IsText s) (bs : List UInt8) :
    readString (stringText s ++ bs) = some (s, bs) := by
  have hunits := readUnits_string (s := s) (fun c hc => by have hscalar := h c hc; omega) bs
  rw [stringText, List.cons_append, List.append_assoc, readString, if_pos rfl]
  show (readUnits (s.flatMap escape ++ quote :: bs)).map _ = _
  rw [hunits, Option.map_some, Utf16.join_units h]

/-! ## Objects are read back -/

theorem readNat_text (n : ℕ) {b : UInt8} (hb : Decimal.isDigit b = false) (bs : List UInt8) :
    readNat (Decimal.text n ++ b :: bs) = some (n, b :: bs) := by
  have hdigits : ∀ d ∈ Decimal.text n, Decimal.isDigit d = true :=
    fun d => Decimal.isDigit_of_mem_text n
  have htake : (Decimal.text n ++ b :: bs).takeWhile Decimal.isDigit = Decimal.text n := by
    rw [List.takeWhile_append_of_pos hdigits, List.takeWhile_cons_of_neg (by simp [hb]),
      List.append_nil]
  have hdrop : (Decimal.text n ++ b :: bs).dropWhile Decimal.isDigit = b :: bs := by
    rw [List.dropWhile_append_of_pos hdigits, List.dropWhile_cons_of_neg (by simp [hb])]
  rw [readNat, htake, hdrop, Decimal.value_text, Option.bind_some, if_pos rfl]

theorem ne_of_isDigit {d b : UInt8} (hd : Decimal.isDigit d = true)
    (hb : Decimal.isDigit b = false) : d ≠ b := by
  rintro rfl
  exact absurd hd (by simp [hb])

/-- A number starts with a digit. -/
theorem text_eq_cons (n : ℕ) : ∃ d ds, Decimal.text n = d :: ds ∧ Decimal.isDigit d = true := by
  obtain ⟨d, ds, htext⟩ := List.exists_cons_of_ne_nil (Decimal.text_ne_nil n)
  exact ⟨d, ds, htext, Decimal.isDigit_of_mem_text n (by rw [htext]; exact List.mem_cons_self)⟩

/-- What starts with a digit is no other scalar. -/
theorem readScalar_digit {d : UInt8} (hd : Decimal.isDigit d = true) (bs : List UInt8) :
    readScalar (d :: bs) = (readNat (d :: bs)).map fun r => (.int r.1, r.2) := by
  unfold readScalar
  split
  · rename_i heq
    exact absurd (List.cons.inj heq).1 (ne_of_isDigit hd (by decide))
  · rename_i heq
    exact absurd (List.cons.inj heq).1 (ne_of_isDigit hd (by decide))
  · rename_i heq
    exact absurd (List.cons.inj heq).1 (ne_of_isDigit hd (by decide))
  · rfl

/-- The strings of a scalar are texts. -/
def Scalar.IsText : Scalar → Prop
  | str s => Json.IsText s
  | _ => True

theorem readScalar_text {v : Scalar} (h : v.IsText) {b : UInt8}
    (hb : Decimal.isDigit b = false) (bs : List UInt8) :
    readScalar (v.text ++ b :: bs) = some (v, b :: bs) := by
  cases v with
  | null => rfl
  | int n =>
    rw [Scalar.text, intText]
    split_ifs with hn
    · show (readNat (Decimal.text n.natAbs ++ b :: bs)).map _ = _
      rw [readNat_text _ hb, Option.map_some, show -(n.natAbs : ℤ) = n by omega]
    · obtain ⟨d, ds, htext, hd⟩ := text_eq_cons n.natAbs
      have hnat := readNat_text n.natAbs hb bs
      rw [htext, List.cons_append] at hnat ⊢
      rw [readScalar_digit hd, hnat, Option.map_some, show (n.natAbs : ℤ) = n by omega]
  | str s =>
    show (readString (stringText s ++ b :: bs)).map _ = _
    rw [readString_text h]
    rfl

theorem skip_cons {b : UInt8} (h : isSpace b = false) (bs : List UInt8) :
    skip (b :: bs) = b :: bs :=
  List.dropWhile_cons_of_neg (by simp [h])

theorem skip_space (bs : List UInt8) : skip (32 :: bs) = skip bs :=
  List.dropWhile_cons_of_pos (by decide)

/-- No scalar's text starts with a space. -/
theorem skip_text (v : Scalar) (bs : List UInt8) : skip (v.text ++ bs) = v.text ++ bs := by
  cases v with
  | null => rfl
  | int n =>
    rw [Scalar.text, intText]
    split_ifs with hn
    · rfl
    · obtain ⟨d, ds, htext, hd⟩ := text_eq_cons n.natAbs
      rw [htext, List.cons_append]
      refine skip_cons ?_ _
      simp only [isSpace, Bool.or_eq_false_iff, decide_eq_false_iff_not]
      exact ⟨⟨⟨ne_of_isDigit hd (by decide), ne_of_isDigit hd (by decide)⟩,
        ne_of_isDigit hd (by decide)⟩, ne_of_isDigit hd (by decide)⟩
  | str s => rfl

/-- The strings of a member are texts. -/
def IsTextMember (m : Member) : Prop :=
  IsText m.1 ∧ m.2.IsText

theorem readMember_text {m : Member} (h : IsTextMember m) {b : UInt8}
    (hb : Decimal.isDigit b = false) (bs : List UInt8) :
    readMember (memberText m ++ b :: bs) = some (m, b :: bs) := by
  simp only [memberText, List.append_assoc, List.cons_append, List.nil_append]
  rw [readMember, readString_text h.1, Option.bind_some, skip_cons (by decide)]
  show (readScalar (skip (32 :: (m.2.text ++ b :: bs)))).map _ = _
  rw [skip_space, skip_text, readScalar_text h.2 hb]
  rfl

/-- Members start with a quote. -/
theorem membersText_eq_cons (m : Member) : ∀ ms, ∃ bs, membersText m ms = quote :: bs
  | [] => ⟨_, rfl⟩
  | _ :: _ => ⟨_, rfl⟩

theorem length_membersText (m : Member) : ∀ ms, ms.length < (membersText m ms).length
  | [] => by
    obtain ⟨bs, hbs⟩ := membersText_eq_cons m []
    simp [hbs]
  | m' :: ms => by
    have hrest := length_membersText m' ms
    simp only [membersText, List.length_append, List.length_cons, List.length_nil]
    omega

theorem readMembers_text : ∀ {ms : List Member} {m : Member} {fuel : ℕ}, ms.length < fuel →
    (∀ x ∈ m :: ms, IsTextMember x) → ∀ bs,
      readMembers fuel (membersText m ms ++ 125 :: bs) = some (m :: ms, bs)
  | [], m, fuel + 1, _, h, bs => by
    rw [membersText, readMembers, readMember_text (h m List.mem_cons_self) (by decide),
      Option.bind_some, skip_cons (by decide)]
    rfl
  | m' :: ms, m, fuel + 1, hfuel, h, bs => by
    obtain ⟨hm, hms⟩ := List.forall_mem_cons.1 h
    have hrest := readMembers_text (Nat.lt_of_succ_lt_succ hfuel) hms bs
    obtain ⟨text, htext⟩ := membersText_eq_cons m' ms
    simp only [membersText, htext, List.append_assoc, List.cons_append, List.nil_append]
      at hrest ⊢
    rw [readMembers, readMember_text hm (by decide), Option.bind_some, skip_cons (by decide)]
    show (readMembers fuel (skip (32 :: quote :: (text ++ 125 :: bs)))).map _ = _
    rw [skip_space, skip_cons (by decide), hrest]
    rfl

/-- The members of an object are read back. -/
theorem readObject_objectText : ∀ {ms : List Member}, (∀ m ∈ ms, IsTextMember m) →
    readObject (objectText ms) = some ms
  | [], _ => rfl
  | m :: ms, h => by
    have hlength := length_membersText m ms
    have hmembers := readMembers_text
      (show ms.length < (membersText m ms ++ [125]).length by rw [List.length_append]; omega) h []
    obtain ⟨text, htext⟩ := membersText_eq_cons m ms
    rw [htext, List.cons_append] at hmembers
    rw [objectText, readObject, skip_cons (by decide), htext, List.cons_append]
    show ((readMembers _ (quote :: (text ++ [125]))).bind _) = _
    rw [hmembers]
    rfl

end Json
