/-!
Files as lists of lines. A line ends at a line feed, and a carriage return before that is dropped; what
follows the last line feed is a line unless it is empty. A line that is not text counts as a line, so
that what stands before it can be used. Main statements: `ofBytes_toUTF8`, a text has the same lines
whether it is read by characters or by bytes, and `ofText_unlines`, written lines are read back.
-/
namespace CallAtlas

/-- One line of a file; `none` stands for bytes that are not text. -/
abbrev Line : Type := Option String

namespace Lines

def push {α : Type} (a : α) : List (List α) → List (List α)
  | [] => [[a]]
  | l :: ls => (a :: l) :: ls

/-- The pieces between line feeds `lf`, without the carriage returns `cr` that stand before them. -/
def pieces {α : Type} [DecidableEq α] (cr lf : α) : List α → List (List α)
  | [] => []
  | a :: as =>
    if a = lf then [] :: pieces cr lf as
    else if a = cr ∧ as.head? = some lf then pieces cr lf as
    else push a (pieces cr lf as)

def decode (bytes : List UInt8) : Line := String.fromUTF8? ⟨bytes.toArray⟩

def ofList (bytes : List UInt8) : List Line := (pieces 13 10 bytes).map decode

def ofBytes (bytes : ByteArray) : List Line := ofList bytes.data.toList

def ofText (text : String) : List Line :=
  (pieces '\r' '\n' text.toList).map fun cs => some (String.ofList cs)

def unlines (lines : List String) : String := String.join (lines.map (· ++ "\n"))

def IsLine (text : String) : Prop := '\n' ∉ text.toList ∧ text.toList.getLast? ≠ some '\r'

theorem pieces_append_cons {α : Type} [DecidableEq α] {cr lf : α} {line : List α} (inner : lf ∉ line)
    (rest : List α) : pieces cr lf (line ++ lf :: rest) =
      (if line.getLast? = some cr then line.dropLast else line) :: pieces cr lf rest := by
  induction line with
  | nil => rw [List.nil_append, pieces, if_pos rfl, if_neg (by simp)]
  | cons a as ih =>
    obtain ⟨ne, inner⟩ := not_or.mp (mt List.mem_cons.mpr inner)
    rw [List.cons_append, pieces, if_neg (Ne.symm ne), ih inner]
    cases as with
    | nil =>
      by_cases eq : a = cr
      · simp [eq]
      · simp [eq, push]
    | cons b bs =>
      have kept : ¬ (a = cr ∧ (b :: bs ++ lf :: rest).head? = some lf) :=
        fun h => inner (by simp [Option.some.inj h.2])
      rw [if_neg kept, List.getLast?_cons_cons, List.dropLast_cons_cons]
      split <;> rfl

theorem pieces_line {α : Type} [DecidableEq α] {cr lf : α} {line : List α} (inner : lf ∉ line)
    (last : line.getLast? ≠ some cr) (rest : List α) :
    pieces cr lf (line ++ lf :: rest) = line :: pieces cr lf rest := by
  rw [pieces_append_cons inner, if_neg last]

theorem pieces_of_not_mem {α : Type} [DecidableEq α] {cr lf : α} {line : List α} (inner : lf ∉ line)
    (nonempty : line ≠ []) : pieces cr lf line = [line] := by
  induction line with
  | nil => exact absurd rfl nonempty
  | cons a as ih =>
    obtain ⟨ne, inner⟩ := not_or.mp (mt List.mem_cons.mpr inner)
    have kept : ¬ (a = cr ∧ as.head? = some lf) := fun h => inner (List.mem_of_head? h.2)
    rw [pieces, if_neg (Ne.symm ne), if_neg kept]
    cases as with
    | nil => rfl
    | cons b bs =>
      rw [ih inner (List.cons_ne_nil b bs)]
      rfl

theorem ofText_unlines {lines : List String} (h : ∀ line ∈ lines, IsLine line) :
    ofText (unlines lines) = lines.map some := by
  have run : pieces '\r' '\n' (unlines lines).toList = lines.map String.toList := by
    induction lines with
    | nil => rfl
    | cons line lines ih =>
      obtain ⟨first, rest⟩ := List.forall_mem_cons.mp h
      have split : (unlines (line :: lines)).toList =
          line.toList ++ '\n' :: (unlines lines).toList := by
        simp [unlines]
      rw [split, pieces_line first.1 first.2, ih rest, List.map_cons]
  rw [ofText, run, List.map_map]
  exact List.map_congr_left fun line _ => congrArg some String.ofList_toList

theorem not_mem_pieces {α : Type} [DecidableEq α] {cr lf : α} {as piece : List α}
    (h : piece ∈ pieces cr lf as) : lf ∉ piece := by
  fun_induction pieces cr lf as generalizing piece with
  | case1 => cases h
  | case2 as ih =>
    rcases List.mem_cons.mp h with rfl | h
    · exact List.not_mem_nil
    · exact ih h
  | case3 a as ne cut ih => exact ih h
  | case4 a as ne kept ih =>
    cases rest : pieces cr lf as with
    | nil =>
      rw [rest] at h
      rw [List.mem_singleton.mp h, List.mem_singleton]
      exact Ne.symm ne
    | cons p ps =>
      rw [rest] at h ih
      rcases List.mem_cons.mp h with rfl | h
      · rw [List.mem_cons, not_or]
        exact ⟨Ne.symm ne, ih List.mem_cons_self⟩
      · exact ih (List.mem_cons_of_mem _ h)

open String (utf8EncodeChar)

theorem ofNat_ne {n m : Nat} (hn : n < 256) (hm : m < 256) (h : n ≠ m) :
    UInt8.ofNat n ≠ UInt8.ofNat m := by
  intro eq
  have := congrArg UInt8.toNat eq
  simp only [UInt8.toNat_ofNat'] at this
  omega

theorem ne_of_mem_utf8EncodeChar {c : Char} {n : Nat} (hn : n < 128) (h : c.toNat ≠ n) :
    ∀ b ∈ utf8EncodeChar c, b ≠ UInt8.ofNat n := by
  intro b hb
  have v : c.val.toNat ≠ n := h
  unfold utf8EncodeChar at hb
  dsimp only at hb
  split at hb
  · rw [List.mem_singleton.mp hb]
    exact ofNat_ne (by omega) (by omega) v
  · have big : ∀ k, 128 ≤ k → k < 256 → UInt8.ofNat k ≠ UInt8.ofNat n := fun k h h' =>
      ofNat_ne h' (by omega) (by omega)
    split at hb
    · simp only [List.mem_cons, List.not_mem_nil, or_false] at hb
      rcases hb with rfl | rfl <;> exact big _ (by omega) (by omega)
    · split at hb
      · simp only [List.mem_cons, List.not_mem_nil, or_false] at hb
        rcases hb with rfl | rfl | rfl <;> exact big _ (by omega) (by omega)
      · simp only [List.mem_cons, List.not_mem_nil, or_false] at hb
        rcases hb with rfl | rfl | rfl | rfl <;> exact big _ (by omega) (by omega)

theorem utf8EncodeChar_ne_nil (c : Char) : utf8EncodeChar c ≠ [] := by
  intro eq
  have := String.length_utf8EncodeChar c
  have := c.utf8Size_pos
  simp [eq] at *
  omega

theorem pieces_append {α : Type} [DecidableEq α] {cr lf : α} {as bs : List α}
    (h : ∀ a ∈ as, a ≠ cr ∧ a ≠ lf) :
    pieces cr lf (as ++ bs) = as.foldr push (pieces cr lf bs) := by
  induction as with
  | nil => rfl
  | cons a as ih =>
    obtain ⟨ncr, nlf⟩ := h a (by simp)
    simp [pieces, ncr, nlf, ih fun x hx => h x (by simp [hx])]

theorem foldr_push {α : Type} {as : List α} (h : as ≠ []) (ls : List (List α)) :
    as.foldr push ls = (as ++ ls.head?.getD []) :: ls.tail := by
  induction as with
  | nil => exact absurd rfl h
  | cons a as ih =>
    cases as with
    | nil => cases ls <;> rfl
    | cons b as =>
      rw [List.foldr_cons, ih (by simp)]
      rfl

theorem map_push {α β : Type} {f : α → List β} (c : α) (h : f c ≠ []) (ls : List (List α)) :
    (push c ls).map (·.flatMap f) = (f c).foldr push (ls.map (·.flatMap f)) := by
  rw [foldr_push h]
  cases ls <;> simp [push]

theorem head?_flatMap_utf8EncodeChar (cs : List Char) :
    (cs.flatMap utf8EncodeChar).head? = some 10 ↔ cs.head? = some '\n' := by
  cases cs with
  | nil => simp
  | cons c cs =>
    by_cases h : c = '\n'
    · subst h
      simp only [List.flatMap_cons, List.head?_cons]
      simp
      rfl
    · have ne := ne_of_mem_utf8EncodeChar (c := c) (n := 10) (by omega)
        (fun eq => h (Char.toNat_inj.mp eq))
      cases hb : utf8EncodeChar c with
      | nil => exact absurd hb (utf8EncodeChar_ne_nil c)
      | cons b bs =>
        have := ne b (by simp [hb])
        simp [hb, h]
        exact this

theorem pieces_flatMap (cs : List Char) :
    pieces 13 10 (cs.flatMap utf8EncodeChar) =
      (pieces '\r' '\n' cs).map (·.flatMap utf8EncodeChar) := by
  induction cs with
  | nil => rfl
  | cons c cs ih =>
    rw [List.flatMap_cons]
    by_cases lf : c = '\n'
    · subst lf
      have : utf8EncodeChar '\n' = [10] := rfl
      simp [this, pieces, ih]
    · by_cases cr : c = '\r'
      · subst cr
        have : utf8EncodeChar '\r' = [13] := rfl
        have code : (13 : UInt8) ≠ 10 := by decide
        by_cases next : cs.head? = some '\n'
        · simp [this, pieces, ih, next, head?_flatMap_utf8EncodeChar, code]
        · simp [this, pieces, ih, next, head?_flatMap_utf8EncodeChar, code, map_push]
      · rw [pieces_append, ih, pieces, if_neg lf, if_neg (fun h => cr h.1),
          map_push c (utf8EncodeChar_ne_nil c)]
        exact fun b hb => ⟨ne_of_mem_utf8EncodeChar (n := 13) (by omega)
          (fun eq => cr (Char.toNat_inj.mp eq)) b hb,
          ne_of_mem_utf8EncodeChar (n := 10) (by omega)
          (fun eq => lf (Char.toNat_inj.mp eq)) b hb⟩

theorem fromUTF8?_flatMap (cs : List Char) :
    String.fromUTF8? ⟨(cs.flatMap utf8EncodeChar).toArray⟩ = some (String.ofList cs) := by
  have eq : (⟨(cs.flatMap utf8EncodeChar).toArray⟩ : ByteArray) = cs.utf8Encode :=
    ByteArray.ext List.data_toByteArray.symm
  rw [String.fromUTF8?, dif_pos ⟨cs, eq⟩]
  congr 1
  apply String.toByteArray_inj.mp
  rw [String.toByteArray_ofList, ← eq]
  rfl

theorem toList_data_toByteArray (text : String) :
    text.toByteArray.data.toList = text.toList.flatMap utf8EncodeChar := by
  conv => lhs; rw [← String.ofList_toList (s := text)]
  rw [String.toByteArray_ofList, List.utf8Encode]
  simp

theorem ofBytes_toUTF8 (text : String) : ofBytes text.toUTF8 = ofText text := by
  rw [ofBytes, ofList, String.toUTF8_eq_toByteArray, toList_data_toByteArray, pieces_flatMap,
    List.map_map]
  exact List.map_congr_left fun cs _ => fromUTF8?_flatMap cs

theorem newline_not_mem_of_mem_ofBytes {bytes : ByteArray} {text : String}
    (h : some text ∈ ofBytes bytes) : '\n' ∉ text.toList := by
  obtain ⟨piece, hp, eq⟩ := List.mem_map.mp h
  have bytes : text.toByteArray.data.toList = piece := by
    rw [decode, String.fromUTF8?] at eq
    split at eq
    · cases eq
      simp [String.fromUTF8]
    · cases eq
  rw [toList_data_toByteArray] at bytes
  intro inside
  refine not_mem_pieces hp ?_
  rw [← bytes]
  exact List.mem_flatMap.mpr ⟨'\n', inside, by decide⟩

end Lines

end CallAtlas
