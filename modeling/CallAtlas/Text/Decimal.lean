/-!
Decimal numbers of bounded size, as they stand in commands and dumps: digits, maybe after a plus sign.
-/
namespace CallAtlas.Decimal

def ofDigits? : List Char → Option Nat
  | [] => none
  | cs => cs.foldl (fun n c => n.bind fun n =>
      if c.isDigit then some (10 * n + (c.toNat - '0'.toNat)) else none) (some 0)

def nat? (bound : Nat) (text : String) : Option Nat :=
  let digits := match text.toList with
    | '+' :: cs => cs
    | cs => cs
  (ofDigits? digits).filter (· < bound)

def int64? (text : String) : Option Int :=
  match text.toList with
  | '-' :: cs => ((ofDigits? cs).filter (· ≤ 9223372036854775808)).map fun n => -(n : Int)
  | _ => (nat? 9223372036854775808 text).map Int.ofNat

def uint32? (text : String) : Option UInt32 := (nat? 4294967296 text).map (·.toUInt32)

theorem ofDigits?_eq {cs : List Char} (some : cs ≠ []) (digits : ∀ c ∈ cs, c.isDigit = true) :
    ofDigits? cs = Option.some (Nat.ofDigitChars 10 cs 0) := by
  have run : ∀ n, cs.foldl (fun n c => n.bind fun n =>
      if c.isDigit then Option.some (10 * n + (c.toNat - '0'.toNat)) else none) (Option.some n) =
        Option.some (Nat.ofDigitChars 10 cs n) := by
    clear some
    induction cs with
    | nil => exact fun _ => rfl
    | cons c cs ih =>
      intro n
      obtain ⟨first, rest⟩ := List.forall_mem_cons.mp digits
      rw [List.foldl_cons, Option.bind_some, if_pos first, ih rest, Nat.ofDigitChars_cons]
  cases cs with
  | nil => exact absurd rfl some
  | cons c cs => exact run 0

theorem ofDigits?_toList_repr (n : Nat) : ofDigits? n.repr.toList = some n := by
  rw [Nat.toList_repr, ofDigits?_eq Nat.toDigits_ne_nil
    (fun c hc => Nat.isDigit_of_mem_toDigits (by decide) (by decide) hc),
    Nat.ofDigitChars_ten_toDigits]

theorem not_mem_toList_repr {c : Char} (h : c.isDigit = false) (n : Nat) :
    c ∉ n.repr.toList := by
  rw [Nat.toList_repr]
  intro inside
  have digit := Nat.isDigit_of_mem_toDigits (b := 10) (by decide) (by decide) inside
  exact Bool.false_ne_true (h.symm.trans digit)

theorem nat?_repr {bound n : Nat} (h : n < bound) : nat? bound n.repr = some n := by
  have digits : nat? bound n.repr = (ofDigits? n.repr.toList).filter (· < bound) := by
    unfold nat?
    split
    · rename_i cs eq
      have signed : '+' ∈ n.repr.toList := by rw [eq]; exact List.mem_cons_self
      exact absurd signed (not_mem_toList_repr (by decide) n)
    · rfl
  rw [digits, ofDigits?_toList_repr, Option.filter_some, if_pos (decide_eq_true h)]

theorem uint32?_toString (n : UInt32) : uint32? (toString n) = some n := by
  show (nat? 4294967296 n.toNat.repr).map _ = _
  rw [nat?_repr n.toNat_lt]
  simp

end CallAtlas.Decimal
