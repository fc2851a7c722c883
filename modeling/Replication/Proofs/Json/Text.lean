import Replication.Json.Text

/-!
# A document is read back from its text

Whatever the characters of its strings, the nesting of its lists and the names of its members, a
document whose numbers are words is read from the text that is written for it: `parse?_render`.

The text of a value is read up to its end and no further because of what stands behind it in a
larger text, a comma or a closing bracket or brace (`Closes`). The bound on the parts of a value
suffices if it is twice the number of characters.
-/

namespace Replication.Json

/-! ## Strings -/

/-- A character is no half of a pair of code units. -/
theorem toNat_char (c : Char) : c.toNat < 0xD800 ∨ 0xE000 ≤ c.toNat := by
  have hvalid : c.toNat < 0xD800 ∨ (0xDFFF < c.toNat ∧ c.toNat < 0x110000) := c.valid
  omega

/-- The four hexadecimal digits of a control character are read back as its code. -/
theorem hexUnit?_control : ∀ n < 0x20,
    hexUnit? '0' '0' (Nat.digitChar (n / 16)) (Nat.digitChar (n % 16)) = some n := by
  decide +kernel

/-- A character as it is written is read as its code. -/
theorem units_escape (c : Char) (cs : List Char) (read : Units) :
    units (escape c ++ cs) read = units cs (c.toNat :: read) := by
  unfold escape
  by_cases hquote : c = '"'
  · subst hquote
    rfl
  by_cases hslash : c = '\\'
  · subst hslash
    rfl
  by_cases hnamed : c ∈ ['\x08', '\x0c', '\n', '\r', '\t']
  · simp only [List.mem_cons, List.not_mem_nil, or_false] at hnamed
    rcases hnamed with rfl | rfl | rfl | rfl | rfl <;> rfl
  · simp only [List.mem_cons, List.not_mem_nil, or_false, not_or] at hnamed
    simp only [beq_iff_eq, hquote, hslash, hnamed, if_false]
    by_cases hcontrol : c.toNat < 0x20
    · rw [if_pos hcontrol]
      show units ('\\' :: 'u' :: '0' :: '0' :: _ :: _ :: cs) read = _
      rw [units, hexUnit?_control c.toNat hcontrol]
    · rw [if_neg hcontrol]
      show units (c :: cs) read = _
      rw [units, if_neg hcontrol]
      · exact hquote
      · intro _ _ _ _ _ hc
        exact absurd hc hslash
      · intro _ _ hc
        exact absurd hc hslash

/-- Escaped text up to the closing quote is read back character by character. -/
theorem units_flatMap_escape (text cs : List Char) (read : Units) :
    units (text.flatMap escape ++ '"' :: cs) read
      = some (read.reverse ++ text.map Char.toNat, cs) := by
  induction text generalizing read with
  | nil => simp [units]
  | cons c text ih =>
    rw [List.flatMap_cons, List.append_assoc, units_escape, ih]
    simp

/-- The codes of characters are joined to the same characters: no two of them are a pair. -/
theorem joinUnits_map_toNat (text before : List Char) :
    joinUnits (text.map Char.toNat) before = some (before.reverse ++ text) := by
  induction text generalizing before with
  | nil => simp [joinUnits]
  | cons c text ih =>
    have hc := toNat_char c
    have hhalf : ¬ (0xD800 ≤ c.toNat ∧ c.toNat < 0xE000) := by omega
    match text with
    | [] =>
      simp [joinUnits, hhalf, Char.ofNat_toNat]
    | d :: text =>
      have hpair : ¬ (0xD800 ≤ c.toNat ∧ c.toNat < 0xDC00 ∧
          0xDC00 ≤ d.toNat ∧ d.toNat < 0xE000) := by
        omega
      rw [List.map_cons] at ih
      rw [List.map_cons, List.map_cons, joinUnits, if_neg hpair, if_neg hhalf, Char.ofNat_toNat, ih]
      simp

/-- A string is read back from its text. -/
theorem readString_escape (text : String) (cs : List Char) :
    readString (text.toList.flatMap escape ++ '"' :: cs) = some (some text, cs) := by
  have hjoin := joinUnits_map_toNat text.toList []
  rw [List.reverse_nil, List.nil_append] at hjoin
  rw [readString, units_flatMap_escape, Option.map_some, List.reverse_nil, List.nil_append]
  simp only [hjoin, Option.map_some, String.ofList_toList]

/-! ## Numbers -/

/-- What stands behind a value: nothing, or the end of an item or of a list. -/
def Closes : List Char → Prop
  | [] => True
  | c :: _ => c = ',' ∨ c = ']' ∨ c = '}'

/-- A number may end before a comma. -/
theorem closes_comma (cs : List Char) : Closes (',' :: cs) := Or.inl rfl

theorem closes_bracket (cs : List Char) : Closes (']' :: cs) := Or.inr (Or.inl rfl)

theorem closes_brace (cs : List Char) : Closes ('}' :: cs) := Or.inr (Or.inr rfl)

/-- No number goes on where a value is closed. -/
theorem Closes.number_ends {cs : List Char} (h : Closes cs) :
    cs.takeWhile Char.isDigit = [] ∧ cs.dropWhile Char.isDigit = cs ∧
      fractionPart cs = some ([], cs) ∧ exponentPart cs = some ([], cs) := by
  match cs with
  | [] => exact ⟨rfl, rfl, rfl, rfl⟩
  | c :: cs => rcases h with rfl | rfl | rfl <;> exact ⟨rfl, rfl, rfl, rfl⟩

/-- The decimal digits of a number spell the number. -/
theorem decimal_toDigits (n : Nat) : decimal (Nat.toDigits 10 n) = n := by
  have h : Nat.ofDigitChars 10 (Nat.toDigits 10 n) 0 = n := Nat.ofDigitChars_ten_toDigits
  rwa [Nat.ofDigitChars_eq_foldl] at h

theorem isDigit_toDigits {n : Nat} : ∀ c ∈ Nat.toDigits 10 n, c.isDigit = true :=
  fun _ hc => Nat.isDigit_of_mem_toDigits (by decide) (by decide) hc

/-- A number has a first digit. -/
theorem exists_toDigits_eq (n : Nat) :
    ∃ c digits, Nat.toDigits 10 n = c :: digits ∧ c.isDigit = true := by
  obtain ⟨c, digits, hdigits⟩ := List.exists_cons_of_ne_nil (Nat.toDigits_ne_nil (b := 10) (n := n))
  exact ⟨c, digits, hdigits, isDigit_toDigits c (hdigits ▸ List.mem_cons_self)⟩

/-- The digits of a positive number do not start with a zero. -/
theorem head?_toDigits {n : Nat} (h : 0 < n) : (Nat.toDigits 10 n).head? ≠ some '0' := by
  induction n using Nat.strongRecOn with
  | ind n ih =>
    rw [Nat.toDigits_eq_if (by decide)]
    by_cases hsmall : n < 10
    · rw [if_pos hsmall]
      simp
      omega
    · have hhead := ih (n / 10) (by omega) (by omega)
      obtain ⟨c, digits, hdigits, -⟩ := exists_toDigits_eq (n / 10)
      rw [if_neg hsmall, hdigits]
      rwa [hdigits] at hhead

/-- The digits of a number are read as a whole when no further digit can follow. -/
theorem integerPart_toDigits (n : Nat) {cs : List Char} (hcs : Closes cs) :
    integerPart (Nat.toDigits 10 n ++ cs) = some (Nat.toDigits 10 n, cs) := by
  obtain ⟨htake, hdrop, -⟩ := hcs.number_ends
  by_cases hzero : n = 0
  · subst hzero
    show integerPart ('0' :: cs) = some (['0'], cs)
    match cs with
    | [] => rfl
    | c :: cs => rcases hcs with rfl | rfl | rfl <;> rfl
  · have htake' : (Nat.toDigits 10 n ++ cs).takeWhile Char.isDigit = Nat.toDigits 10 n := by
      rw [List.takeWhile_append_of_pos isDigit_toDigits, htake, List.append_nil]
    have hdrop' : (Nat.toDigits 10 n ++ cs).dropWhile Char.isDigit = cs := by
      rw [List.dropWhile_append_of_pos isDigit_toDigits, hdrop]
    have hhead := head?_toDigits (Nat.pos_of_ne_zero hzero)
    obtain ⟨c, digits, hdigits, hdigit⟩ := exists_toDigits_eq n
    rw [hdigits] at htake' hdrop' hhead ⊢
    have hc : c ≠ '0' := by
      intro hc
      exact hhead (congrArg some hc)
    rw [List.cons_append] at htake' hdrop' ⊢
    rw [integerPart, if_pos hdigit, htake', hdrop']
    exact hc

/-- A word is read back from its digits. -/
theorem readNumber_toDigits {n : Nat} (hn : n < 2 ^ 64) {cs : List Char} (hcs : Closes cs) :
    readNumber (Nat.toDigits 10 n ++ cs) = some (natural n, cs) := by
  have hinteger := integerPart_toDigits n hcs
  obtain ⟨-, -, hfraction, hexponent⟩ := hcs.number_ends
  have hdecimal := decimal_toDigits n
  obtain ⟨c, digits, hdigits, hc⟩ := exists_toDigits_eq n
  rw [hdigits] at hinteger hdecimal ⊢
  have hsign : c ≠ '-' := by
    rintro rfl
    exact absurd hc (by decide)
  rw [List.cons_append] at hinteger ⊢
  unfold readNumber
  simp [hsign, hinteger, hfraction, hexponent, hdecimal]
  omega

/-! ## Values -/

/-- The characters of the text of a document. -/
def chars (document : Json) : List Char := (render document).toList

/-- The characters of a name in quotes, without the first quote. -/
def nameChars (name : String) : List Char := name.toList.flatMap escape ++ ['"']

/-- The text of the items of an array behind the first one. -/
def itemChars (items : List Json) : List Char := items.flatMap fun item => ',' :: item.chars

/-- The text of a member of an object behind its first quote. -/
def memberChars (member : String × Json) : List Char :=
  nameChars member.1 ++ ':' :: member.2.chars

/-- The text of the members of an object behind the first one. -/
def membersChars (members : List (String × Json)) : List Char :=
  members.flatMap fun member => ',' :: '"' :: memberChars member

/-- What the text of a document does in the text of a larger one: it is put behind what stands
before it, it is not taken for a blank or for the end of an array, and it is read back. -/
structure Legible (document : Json) : Prop where
  appended : ∀ before,
    (renderOnto before document).toList = before.toList ++ document.chars
  starts : ∃ c cs, document.chars = c :: cs ∧ isBlank c = false ∧ c ≠ ']'
  read : ∀ parts cs, 2 * document.chars.length ≤ parts → Closes cs →
    readValue parts (document.chars ++ cs) = some (document, cs)

theorem toList_quote (name : String) : (quote name).toList = '"' :: nameChars name := by
  simp [quote, nameChars]

/-- A rendered string is read back up to its closing quote. -/
theorem readString_nameChars (name : String) (cs : List Char) :
    readString (nameChars name ++ cs) = some (some name, cs) := by
  rw [nameChars, List.append_assoc]
  exact readString_escape name cs

theorem skipBlanks_cons {c : Char} (h : isBlank c = false) (cs : List Char) :
    skipBlanks (c :: cs) = c :: cs :=
  List.dropWhile_cons_of_neg (by rw [h]; decide)

section Lists

variable {item : Json} {items : List Json} {member : String × Json}
  {members : List (String × Json)}

@[simp] theorem itemChars_nil : itemChars [] = [] := rfl

@[simp] theorem itemChars_cons : itemChars (item :: items) = ',' :: item.chars ++ itemChars items :=
  rfl

@[simp] theorem membersChars_nil : membersChars [] = [] := rfl

@[simp] theorem membersChars_cons :
    membersChars (member :: members) = ',' :: '"' :: memberChars member ++ membersChars members :=
  rfl

/-- Rendering further items of an array appends a comma and the item for each. -/
theorem toList_renderItems (h : ∀ item ∈ items, Legible item) (before : String) :
    (renderItems before false items).toList = before.toList ++ itemChars items := by
  induction items generalizing before with
  | nil => simp [renderItems]
  | cons item items ih =>
    rw [List.forall_mem_cons] at h
    rw [renderItems, ih h.2, if_neg (by decide), h.1.appended]
    simp

theorem toList_renderMembers (h : ∀ member ∈ members, Legible member.2) (before : String) :
    (renderMembers before false members).toList = before.toList ++ membersChars members := by
  induction members generalizing before with
  | nil => simp [renderMembers]
  | cons member members ih =>
    rw [List.forall_mem_cons] at h
    rw [renderMembers, ih h.2, if_neg (by decide), h.1.appended]
    simp [memberChars, toList_quote]

/-- The items of an array are read one after the other, as long as the bound on the parts allows
two for every character that is left. -/
theorem readItems_chars (hitem : Legible item) (hitems : ∀ item ∈ items, Legible item)
    {parts : Nat} (read : List Json) (cs : List Char)
    (hparts : 2 * (item.chars ++ itemChars items).length + 2 ≤ parts) :
    readItems parts read (item.chars ++ (itemChars items ++ ']' :: cs))
      = some (array (read.reverse ++ item :: items), cs) := by
  induction items generalizing item parts read with
  | nil =>
    match parts with
    | parts + 1 =>
      rw [itemChars_nil, List.append_nil] at hparts
      rw [readItems, itemChars_nil, List.nil_append,
        hitem.read parts _ (by omega) (closes_bracket cs)]
      simp [skipBlanks, isBlank]
  | cons next items ih =>
    rw [List.forall_mem_cons] at hitems
    match parts with
    | parts + 1 =>
      simp only [itemChars_cons, List.length_append, List.length_cons] at hparts
      rw [readItems, itemChars_cons, List.append_assoc, List.cons_append,
        hitem.read parts _ (by omega) (closes_comma _)]
      simp only [skipBlanks_cons (c := ',') rfl]
      rw [ih hitems.1 hitems.2]
      · simp
      · simp only [List.length_append]
        omega

/-- So are the members of an object. -/
theorem readMembers_chars (hmember : Legible member.2)
    (hmembers : ∀ member ∈ members, Legible member.2) {parts : Nat}
    (read : List (Option String × Json)) (cs : List Char)
    (hparts : 2 * (memberChars member ++ membersChars members).length + 2 ≤ parts) :
    readMembers parts read ('"' :: (memberChars member ++ (membersChars members ++ '}' :: cs)))
      = some
        (ofMembers (read.reverse ++ (member :: members).map fun m => (some m.1, m.2)), cs) := by
  induction members generalizing member parts read with
  | nil =>
    match parts with
    | parts + 1 =>
      simp only [memberChars, membersChars_nil, List.length_append, List.length_cons] at hparts
      rw [readMembers, skipBlanks_cons (c := '"') rfl]
      simp only [memberChars, List.append_assoc, readString_nameChars, List.cons_append,
        skipBlanks_cons (c := ':') rfl, membersChars_nil, List.nil_append]
      rw [hmember.read parts _ (by omega) (closes_brace cs)]
      simp [skipBlanks, isBlank]
  | cons next members ih =>
    rw [List.forall_mem_cons] at hmembers
    match parts with
    | parts + 1 =>
      simp only [memberChars, membersChars_cons, List.length_append, List.length_cons] at hparts
      rw [readMembers, skipBlanks_cons (c := '"') rfl]
      simp only [memberChars, List.append_assoc, readString_nameChars, List.cons_append,
        skipBlanks_cons (c := ':') rfl, membersChars_cons]
      rw [hmember.read parts _ (by omega) (closes_comma _)]
      simp only [skipBlanks_cons (c := ',') rfl]
      have hnext : 2 * (memberChars next ++ membersChars members).length + 2 ≤ parts := by
        simp only [memberChars, List.length_append, List.length_cons]
        omega
      have hrest := ih hmembers.1 hmembers.2 ((some member.1, member.2) :: read) hnext
      simp only [memberChars, List.append_assoc, List.cons_append] at hrest
      rw [hrest]
      simp

/-- Members that all have names make the object of these members. -/
theorem ofMembers_map (members : List (String × Json)) :
    ofMembers (members.map fun m => (some m.1, m.2)) = object members := by
  have hall : (members.map fun m => (some m.1, m.2)).mapM
      (fun m => m.1.map fun name => (name, m.2)) = some members := by
    induction members with
    | nil => rfl
    | cons member members ih =>
      rw [List.map_cons, List.mapM_cons, ih]
      rfl
  rw [ofMembers, hall]

/-- The text behind the bracket that opens an array. -/
def arrayChars : List Json → List Char
  | [] => [']']
  | item :: items => item.chars ++ (itemChars items ++ [']'])

/-- The text behind the brace that opens an object. -/
def objectChars : List (String × Json) → List Char
  | [] => ['}']
  | member :: members => '"' :: (memberChars member ++ (membersChars members ++ ['}']))

theorem toList_renderOnto_array (h : ∀ item ∈ items, Legible item) (before : String) :
    (renderOnto before (array items)).toList = before.toList ++ '[' :: arrayChars items := by
  match items with
  | [] => simp [renderOnto, renderItems, arrayChars]
  | item :: items =>
    rw [List.forall_mem_cons] at h
    rw [renderOnto, renderItems, if_pos rfl, String.toList_append, toList_renderItems h.2,
      h.1.appended]
    simp [arrayChars]

theorem toList_renderOnto_object (h : ∀ member ∈ members, Legible member.2) (before : String) :
    (renderOnto before (object members)).toList = before.toList ++ '{' :: objectChars members := by
  match members with
  | [] => simp [renderOnto, renderMembers, objectChars]
  | member :: members =>
    rw [List.forall_mem_cons] at h
    rw [renderOnto, renderMembers, if_pos rfl, String.toList_append, toList_renderMembers h.2,
      h.1.appended]
    simp [objectChars, memberChars, toList_quote]

end Lists

/-- A document is legible where its text is known and read back. -/
theorem legible_of_chars {document : Json} {c : Char} {cs : List Char}
    (happended : ∀ before, (renderOnto before document).toList = before.toList ++ c :: cs)
    (hblank : isBlank c = false) (hc : c ≠ ']')
    (hread : ∀ parts rest, 2 * cs.length < parts → Closes rest →
      readValue (parts + 1) (c :: (cs ++ rest)) = some (document, rest)) : Legible document := by
  have hchars : document.chars = c :: cs := by
    rw [chars, render, happended]
    rfl
  refine ⟨?_, ⟨c, cs, hchars, hblank, hc⟩, ?_⟩
  · intro before
    rw [hchars, happended]
  · intro parts rest hparts hrest
    rw [hchars, List.length_cons] at hparts
    rw [hchars]
    match parts with
    | parts + 1 => exact hread parts rest (by omega) hrest

/-- An array of legible items is legible. -/
theorem legible_array {items : List Json} (h : ∀ item ∈ items, Legible item) :
    Legible (array items) := by
  apply legible_of_chars (toList_renderOnto_array h) rfl (by decide)
  intro parts rest hparts _
  match items with
  | [] => rfl
  | item :: items =>
    rw [List.forall_mem_cons] at h
    obtain ⟨c, cs, hchars, hblank, hc⟩ := h.1.starts
    have hbound : 2 * (item.chars ++ itemChars items).length + 2 ≤ parts := by
      simp only [arrayChars, List.length_append, List.length_singleton] at hparts ⊢
      omega
    have hitems := readItems_chars h.1 h.2 [] rest hbound
    simp only [arrayChars, List.append_assoc, List.singleton_append]
    rw [readValue, skipBlanks_cons (c := '[') rfl]
    rw [hchars, List.cons_append] at hitems ⊢
    simp only [skipBlanks_cons hblank]
    -- the first item does not start with the bracket that closes an empty array
    split
    · rename_i heq
      cases heq
      exact absurd rfl hc
    · exact hitems

theorem legible_object {members : List (String × Json)}
    (h : ∀ member ∈ members, Legible member.2) : Legible (object members) := by
  apply legible_of_chars (toList_renderOnto_object h) rfl (by decide)
  intro parts rest hparts _
  match members with
  | [] => rfl
  | member :: members =>
    rw [List.forall_mem_cons] at h
    have hbound : 2 * (memberChars member ++ membersChars members).length + 2 ≤ parts := by
      simp only [objectChars, List.length_append, List.length_cons] at hparts ⊢
      omega
    have hmembers := readMembers_chars h.1 h.2 [] rest hbound
    rw [List.reverse_nil, List.nil_append, ofMembers_map] at hmembers
    simp only [objectChars, List.cons_append, List.append_assoc, List.nil_append]
    rw [readValue, skipBlanks_cons (c := '{') rfl]
    simp only [skipBlanks_cons (c := '"') rfl]
    exact hmembers

/-- Every string is legible, whichever characters it is made of. -/
theorem legible_string (text : String) : Legible (string text) := by
  have happended : ∀ before : String,
      (renderOnto before (string text)).toList = before.toList ++ '"' :: nameChars text := by
    intro before
    rw [renderOnto, String.toList_append, toList_quote]
  apply legible_of_chars happended rfl (by decide)
  intro parts rest _ _
  rw [readValue, skipBlanks_cons (c := '"') rfl]
  simp only [readString_nameChars]

theorem not_isBlank_of_isDigit {c : Char} (h : c.isDigit = true) : isBlank c = false := by
  apply Bool.eq_false_iff.mpr
  intro hblank
  simp only [isBlank, Bool.or_eq_true, beq_iff_eq] at hblank
  rcases hblank with ((rfl | rfl) | rfl) | rfl <;> exact absurd h (by decide)

/-- Nothing but a number starts with a digit. -/
theorem readValue_of_isDigit {c : Char} (h : c.isDigit = true) (parts : Nat) (cs : List Char) :
    readValue (parts + 1) (c :: cs) = readNumber (c :: cs) := by
  rw [readValue, skipBlanks_cons (not_isBlank_of_isDigit h)]
  split
  case h_7 => rfl
  all_goals
    rename_i heq
    cases heq
    exact absurd h (by decide)

/-- A number of at most 64 bits is legible. -/
theorem legible_natural {n : Nat} (h : n < 2 ^ 64) : Legible (natural n) := by
  have hread : ∀ rest, Closes rest →
      readNumber (Nat.toDigits 10 n ++ rest) = some (natural n, rest) :=
    fun _ => readNumber_toDigits h
  have happended : ∀ before : String,
      (renderOnto before (natural n)).toList = before.toList ++ Nat.toDigits 10 n := by
    intro before
    rw [renderOnto, String.toList_append, Nat.toString_eq_ofList_toDigits, String.toList_ofList]
  obtain ⟨c, digits, hdigits, hc⟩ := exists_toDigits_eq n
  rw [hdigits] at hread happended
  apply legible_of_chars happended (not_isBlank_of_isDigit hc)
  · rintro rfl
    exact absurd hc (by decide)
  · intro parts rest _ hrest
    rw [readValue_of_isDigit hc]
    exact hread rest hrest

/-! ## Documents -/

/-- The documents that have a text of their own: a number is a word, and nothing is illegible. -/
inductive Plain : Json → Prop
  | null : Plain .null
  | bool (value : Bool) : Plain (.bool value)
  | natural {n : Nat} (h : n < 2 ^ 64) : Plain (.natural n)
  | string (text : String) : Plain (.string text)
  | array {items : List Json} (h : ∀ item ∈ items, Plain item) : Plain (.array items)
  | object {members : List (String × Json)} (h : ∀ member ∈ members, Plain member.2) :
    Plain (.object members)

theorem legible_null : Legible null := by
  have happended : ∀ before : String,
      (renderOnto before null).toList = before.toList ++ ['n', 'u', 'l', 'l'] := by
    intro before
    rw [renderOnto, String.toList_append]
    rfl
  apply legible_of_chars happended rfl (by decide)
  intro _ _ _ _
  rfl

theorem legible_bool (value : Bool) : Legible (bool value) := by
  have happended : ∀ before : String, (renderOnto before (bool value)).toList
      = before.toList ++ (if value then 't' else 'f') ::
        (if value then ['r', 'u', 'e'] else ['a', 'l', 's', 'e']) := by
    intro before
    cases value with
    | false =>
      rw [renderOnto, String.toList_append]
      rfl
    | true =>
      rw [renderOnto, String.toList_append]
      rfl
  apply legible_of_chars happended
  · cases value <;> rfl
  · cases value <;> decide
  · intro _ _ _ _
    cases value <;> rfl

/-- Rendering a plain document and reading the text gives the document back. -/
theorem Plain.legible {document : Json} (h : Plain document) : Legible document := by
  induction h with
  | null => exact legible_null
  | bool value => exact legible_bool value
  | natural h => exact legible_natural h
  | string text => exact legible_string text
  | array _ ih => exact legible_array ih
  | object _ ih => exact legible_object ih

/-- A document with a text of its own is read back from it. -/
theorem parse?_render {document : Json} (h : Plain document) :
    parse? document.render = some document := by
  have hread : readValue (2 * document.render.toList.length + 2) document.render.toList
      = some (document, []) := by
    rw [← h.legible.read _ [] (Nat.le_add_right _ 2) trivial, List.append_nil]
    rfl
  simp only [parse?, hread]
  rfl

end Replication.Json
