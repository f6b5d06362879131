import Mathlib.Algebra.Group.Nat.Defs
import Mathlib.Tactic.SplitIfs
import SchemaCheck.Text.Escaped

/-!
Spellings that end by themselves. What was spelled can be told from the front of a longer text, and
where its spelling ends with it: texts end at their closing mark, whole numbers before anything that
no number goes on with, and sequences of what ends by itself at their closing bracket.
-/

namespace SchemaCheck.Text

section Sequences

variable {α : Type} {Follow : List Char → Prop} {spell : α → List Char} {Among : α → Prop}

/-- Among the given items, an item and the rest of the text can be told from a text that its
spelling begins. -/
def Told (Follow : List Char → Prop) (spell : α → List Char) (Among : α → Prop) (item : α) : Prop :=
  ∀ (other : α) (rest tail : List Char), Among other → Follow rest → Follow tail →
    spell item ++ rest = spell other ++ tail → item = other ∧ rest = tail

/-- Spellings one after the other are told apart up to a mark that none of them begins with. -/
theorem flatMap_told {mark : Char} {left right : List α} {rest tail : List Char}
    (told : ∀ item ∈ left, Told Follow spell Among item) (among : ∀ item ∈ right, Among item)
    (unmarked : ∀ item rest tail, spell item ++ rest ≠ mark :: tail)
    (follows : ∀ (items : List α) rest, Follow (items.flatMap spell ++ mark :: rest))
    (same : left.flatMap spell ++ mark :: rest = right.flatMap spell ++ mark :: tail) :
    left = right ∧ rest = tail := by
  induction left generalizing right with
  | nil =>
      cases right with
      | nil => simpa using same
      | cons other others =>
          rw [List.flatMap_cons, List.append_assoc] at same
          exact absurd same.symm (unmarked _ _ _)
  | cons item items ih =>
      cases right with
      | nil =>
          rw [List.flatMap_cons, List.append_assoc] at same
          exact absurd same (unmarked _ _ _)
      | cons other others =>
          obtain ⟨own, later⟩ := List.forall_mem_cons.mp told
          obtain ⟨present, allowed⟩ := List.forall_mem_cons.mp among
          simp only [List.flatMap_cons, List.append_assoc] at same
          obtain ⟨rfl, after⟩ := own _ _ _ present (follows _ _) (follows _ _) same
          obtain ⟨rfl, rfl⟩ := ih later allowed after
          exact ⟨rfl, rfl⟩

theorem Told.announced {item : α} (announcement : List Char) (told : Told Follow spell Among item) :
    Told Follow (fun item => announcement ++ spell item) Among item := by
  intro other rest tail present before after same
  simp only [List.append_assoc] at same
  exact told other rest tail present before after (List.append_cancel_left same)

end Sequences

section Marks

def hexDigitValue (c : Char) : Nat :=
  if c.toNat < 58 then c.toNat - 48 else c.toNat - 87

theorem hexDigitValue_hexDigit : ∀ d < 16, hexDigitValue (hexDigit d) = d := by
  decide

/-- The number that hexadecimal digits spell, the highest first. -/
def hexadecimalValue (digits : List Char) : Nat :=
  digits.foldl (fun value c => 16 * value + hexDigitValue c) 0

theorem hexadecimalValue_append (digits : List Char) (c : Char) :
    hexadecimalValue (digits ++ [c]) = 16 * hexadecimalValue digits + hexDigitValue c := by
  simp [hexadecimalValue]

theorem hexadecimalValue_hexadecimal (width n : Nat) :
    hexadecimalValue (hexadecimal width n) = n % 16 ^ width := by
  induction width generalizing n with
  | zero => simp [hexadecimal, hexadecimalValue, Nat.mod_one]
  | succ width ih =>
      calc
        hexadecimalValue (hexadecimal (width + 1) n) = 16 * (n / 16 % 16 ^ width) + n % 16 := by
          rw [hexadecimal, hexadecimalValue_append, ih,
            hexDigitValue_hexDigit _ (Nat.mod_lt n (by decide))]
        _ = n % 16 ^ (width + 1) := by rw [pow_succ', Nat.mod_mul, Nat.add_comm]

/-- What a backslash announces: a character and the rest of the text. -/
def escaped? : List Char → Option (Char × List Char)
  | 'n' :: rest => some ('\n', rest)
  | 'r' :: rest => some ('\r', rest)
  | 't' :: rest => some ('\t', rest)
  | 'b' :: rest => some ('\x08', rest)
  | 'f' :: rest => some ('\x0c', rest)
  | 'u' :: rest => some (Char.ofNat (hexadecimalValue (rest.take 4)), rest.drop 4)
  | c :: rest => some (c, rest)
  | [] => none

/-- The first character between quotation marks and the rest of the text, unless the closing mark
comes first. -/
def unquoted? : List Char → Option (Char × List Char)
  | [] => none
  | c :: rest => if c = '"' then none else if c = '\\' then escaped? rest else some (c, rest)

theorem unquoted_jsonCharacter (c : Char) (rest : List Char) :
    unquoted? (jsonCharacter c ++ rest) = some (c, rest) := by
  unfold jsonCharacter
  split_ifs with mark backslash newline carriage tab backspace feed control
  any_goals subst c; rfl
  -- What is left are the controls that have no short spelling, and everything that is not escaped.
  case pos =>
    have bounded : c.toNat % 16 ^ 4 = c.toNat := Nat.mod_eq_of_lt (by omega)
    have length := hexadecimal_length 4 c.toNat
    change some (Char.ofNat (hexadecimalValue ((hexadecimal 4 c.toNat ++ rest).take 4)),
      (hexadecimal 4 c.toNat ++ rest).drop 4) = _
    rw [List.take_left' length, List.drop_left' length, hexadecimalValue_hexadecimal, bounded,
      Char.ofNat_toNat]
  case neg => simp [unquoted?, mark, backslash]

theorem jsonCharacter_told (c : Char) : Told (fun _ => True) jsonCharacter (fun _ => True) c := by
  intro d rest tail _ _ _ same
  have read := congrArg unquoted? same
  simpa only [unquoted_jsonCharacter, Option.some.injEq, Prod.mk.injEq] using read

theorem jsonCharacter_unmarked (c : Char) (rest tail : List Char) :
    jsonCharacter c ++ rest ≠ '"' :: tail := by
  intro same
  have read := congrArg unquoted? same
  rw [unquoted_jsonCharacter] at read
  cases read

theorem toList_jsonString (text : String) :
    (jsonString text).toList = '"' :: text.toList.flatMap jsonCharacter ++ ['"'] :=
  String.toList_ofList

/-- A text between marks can be told whatever follows it. -/
theorem jsonString_told (Follow : List Char → Prop) (text : String) :
    Told Follow (fun text => (jsonString text).toList) (fun _ => True) text := by
  intro other rest tail _ _ _ same
  simp only [toList_jsonString, List.cons_append, List.append_assoc, List.nil_append,
    List.cons.injEq, true_and] at same
  obtain ⟨characters, after⟩ := flatMap_told (fun c _ => jsonCharacter_told c) (fun _ _ => trivial)
    jsonCharacter_unmarked (fun _ _ => trivial) same
  exact ⟨String.toList_inj.mp characters, after⟩

end Marks

section Numbers

def isNumeral (c : Char) : Bool :=
  c = '-' || c.isDigit

/-- Text that no whole number goes on with. -/
def Closed (rest : List Char) : Prop :=
  ∀ c ∈ rest.head?, isNumeral c = false

theorem closed_cons {c : Char} {rest : List Char} (ends : isNumeral c = false) :
    Closed (c :: rest) := by
  rintro d ⟨⟩
  exact ends

theorem isNumeral_of_mem_repr {n : Int} {c : Char} (present : c ∈ n.repr.toList) :
    isNumeral c = true := by
  have digit : ∀ m : Nat, c ∈ m.repr.toList → isNumeral c = true := fun m member => by
    have found := Nat.isDigit_of_mem_toDigits (by decide) (by decide)
      (String.toList_ofList ▸ member)
    simp [isNumeral, found]
  cases n with
  | ofNat m => exact digit m present
  | negSucc m =>
      rw [Int.repr, String.toList_append, List.mem_append] at present
      rcases present with sign | present
      · simp_all [isNumeral]
      · exact digit _ present

theorem repr_ne_nil (n : Int) : n.repr.toList ≠ [] := by
  cases n with
  | ofNat m =>
      intro empty
      exact Nat.toDigits_ne_nil ((String.toList_ofList (l := Nat.toDigits 10 m)).symm.trans empty)
  | negSucc m => simp [Int.repr]

theorem takeWhile_repr {n : Int} {rest : List Char} (closed : Closed rest) :
    (n.repr.toList ++ rest).takeWhile isNumeral = n.repr.toList := by
  have ends : rest.takeWhile isNumeral = [] := by
    cases rest with
    | nil => rfl
    | cons c rest => simp [closed c rfl]
  rw [List.takeWhile_append_of_pos fun c => isNumeral_of_mem_repr, ends, List.append_nil]

theorem minus_not_mem_repr (n : Nat) : '-' ∉ n.repr.toList := by
  intro present
  rw [Nat.toList_repr] at present
  have digit := Nat.isDigit_of_mem_toDigits (by decide) (by decide) present
  exact absurd digit (by decide)

theorem nat_eq_of_repr {m n : Nat} (same : m.repr.toList = n.repr.toList) : m = n := by
  have read (k : Nat) : Nat.ofDigitChars 10 k.repr.toList 0 = k := by
    rw [Nat.toList_repr]
    exact Nat.ofDigitChars_toDigits (by decide) (by decide)
  rw [← read m, same, read]

theorem int_eq_of_repr {m n : Int} (same : m.repr.toList = n.repr.toList) : m = n := by
  have signed (k : Nat) : (Int.negSucc k).repr.toList = '-' :: (k + 1).repr.toList := by
    simp [Int.repr]
  cases m with
  | ofNat k =>
      cases n with
      | ofNat l => exact congrArg Int.ofNat (nat_eq_of_repr same)
      | negSucc l =>
          have present : '-' ∈ k.repr.toList := same.trans (signed l) ▸ List.mem_cons_self
          exact absurd present (minus_not_mem_repr k)
  | negSucc k =>
      cases n with
      | ofNat l =>
          have present : '-' ∈ l.repr.toList := same.symm.trans (signed k) ▸ List.mem_cons_self
          exact absurd present (minus_not_mem_repr l)
      | negSucc l =>
          rw [signed, signed] at same
          cases nat_eq_of_repr (List.cons.inj same).2
          rfl

/-- A whole number can be told from a text that goes on with anything but a digit or a sign. -/
theorem int_told (n : Int) : Told Closed (fun n => n.repr.toList) (fun _ => True) n := by
  intro m rest tail _ before after same
  have digits : n.repr.toList = m.repr.toList := calc
    n.repr.toList = (n.repr.toList ++ rest).takeWhile isNumeral := (takeWhile_repr before).symm
    _ = (m.repr.toList ++ tail).takeWhile isNumeral := congrArg _ same
    _ = m.repr.toList := takeWhile_repr after
  obtain rfl := int_eq_of_repr digits
  exact ⟨rfl, List.append_cancel_left same⟩

end Numbers

section Lists

variable {α : Type} {spell : α → List Char} {Among : α → Prop}

theorem intercalate_cons (separator : List Char) (first : List Char) (others : List (List Char)) :
    separator.intercalate (first :: others) = first ++ others.flatMap (separator ++ ·) := by
  induction others generalizing first with
  | nil => simp
  | cons second others ih =>
      rw [List.intercalate_cons_cons, ih, List.flatMap_cons]
      simp only [List.append_assoc]

/-- Items between commas and in brackets. -/
def bracketed (opening closing : Char) (spell : α → List Char) (items : List α) : List Char :=
  opening :: ([',', ' '].intercalate (items.map spell) ++ [closing])

theorem bracketed_nil (opening closing : Char) :
    bracketed opening closing spell [] = [opening, closing] := rfl

theorem bracketed_cons (opening closing : Char) (item : α) (items : List α) :
    bracketed opening closing spell (item :: items) =
      opening :: (spell item ++
        (items.flatMap (fun item => [',', ' '] ++ spell item) ++ [closing])) := by
  simp only [bracketed, List.map_cons, intercalate_cons, List.flatMap_map, List.append_assoc]

/-- Items in brackets can be told whatever follows the closing bracket, if no item begins with
that. -/
theorem bracketed_told (opening closing : Char) {items : List α}
    (ends : isNumeral closing = false) (noComma : closing ≠ ',')
    (told : ∀ item ∈ items, Told Closed spell Among item) (allowed : ∀ item ∈ items, Among item)
    (unclosed : ∀ item rest tail, Among item → spell item ++ rest ≠ closing :: tail) :
    Told Closed (bracketed opening closing spell)
      (fun items => ∀ item ∈ items, Among item) items := by
  -- Behind an item there is either the next comma or the bracket.
  have follows (items : List α) (rest : List Char) :
      Closed (items.flatMap (fun item => [',', ' '] ++ spell item) ++ closing :: rest) := by
    cases items with
    | nil => exact closed_cons ends
    | cons item items => exact closed_cons (by decide)
  intro others rest tail among _ _ same
  cases items with
  | nil =>
      cases others with
      | nil => simpa [bracketed_nil] using same
      | cons other others =>
          simp only [bracketed_nil, bracketed_cons, List.cons_append, List.nil_append,
            List.append_assoc, List.cons.injEq, true_and] at same
          exact absurd same.symm (unclosed _ _ _ (among _ List.mem_cons_self))
  | cons item items =>
      cases others with
      | nil =>
          simp only [bracketed_nil, bracketed_cons, List.cons_append, List.nil_append,
            List.append_assoc, List.cons.injEq, true_and] at same
          exact absurd same (unclosed _ _ _ (allowed _ List.mem_cons_self))
      | cons other others =>
          obtain ⟨own, later⟩ := List.forall_mem_cons.mp told
          obtain ⟨present, expected⟩ := List.forall_mem_cons.mp among
          simp only [bracketed_cons, List.cons_append, List.nil_append, List.append_assoc,
            List.cons.injEq, true_and] at same
          obtain ⟨rfl, after⟩ := own _ _ _ present (follows _ _) (follows _ _) same
          obtain ⟨rfl, rfl⟩ :=
            flatMap_told (fun item member => (later item member).announced [',', ' '])
            expected (fun _ _ _ same => noComma (List.cons.inj same).1.symm) follows after
          exact ⟨rfl, rfl⟩

end Lists

end SchemaCheck.Text
