import Mathlib.Data.List.TakeWhile

/-! Numbers in decimal: what a stream prints, and what `sscanf` reads back. -/
namespace SocketCPlusPlus.Foundation.Decimal

/-- The digits of a number, the first one first. -/
def print (n : Nat) : List UInt8 := (Nat.toDigits 10 n).map fun c => .ofNat c.toNat

def printInt : Int → List UInt8
  | .ofNat n => print n
  | .negSucc n => 45 :: print (n + 1)

def isDigit (c : UInt8) : Bool := 48 ≤ c && c ≤ 57

/-- The number whose digits follow those of another. -/
def value (n : Nat) (chars : List UInt8) : Nat :=
  chars.foldl (fun n c => 10 * n + (c.toNat - 48)) n

theorem print_of_lt {n : Nat} (h : n < 10) : print n = [.ofNat (48 + n)] := by
  rw [print, Nat.toDigits_of_lt_base h, List.map_singleton, Nat.toNat_digitChar_of_lt_ten h]

theorem print_append {n d : Nat} (hn : 0 < n) (hd : d < 10) :
    print (10 * n + d) = print n ++ print d := by
  rw [print, print, print, ← List.map_append, Nat.toDigits_append_toDigits (by decide) hn hd]

/-- Every number is a digit or has a last one. -/
theorem digit_cases {motive : Nat → Prop} (digit : ∀ n < 10, motive n)
    (snoc : ∀ n d, 0 < n → d < 10 → motive n → motive (10 * n + d)) (n : Nat) : motive n := by
  induction n using Nat.strongRecOn with
  | ind n ih =>
    by_cases h : n < 10
    · exact digit n h
    · have hsplit : 10 * (n / 10) + n % 10 = n := Nat.div_add_mod n 10
      rw [← hsplit]
      exact snoc _ _ (by omega) (Nat.mod_lt _ (by decide)) (ih _ (by omega))

theorem digitChar : ∀ n < 10, (UInt8.ofNat (48 + n)).toNat = 48 + n ∧
    isDigit (.ofNat (48 + n)) = true := by
  decide

theorem isDigit_print (n : Nat) : ∀ c ∈ print n, isDigit c = true := by
  induction n using digit_cases with
  | digit n h =>
    rw [print_of_lt h, List.forall_mem_singleton]
    exact (digitChar n h).2
  | snoc n d hn hd ih =>
    rw [print_append hn hd, List.forall_mem_append]
    refine ⟨ih, ?_⟩
    rw [print_of_lt hd, List.forall_mem_singleton]
    exact (digitChar d hd).2

theorem print_ne_nil (n : Nat) : print n ≠ [] := by
  induction n using digit_cases with
  | digit n h => rw [print_of_lt h]; exact List.cons_ne_nil _ _
  | snoc n d hn hd ih => rw [print_append hn hd]; exact List.append_ne_nil_of_left_ne_nil ih _

theorem value_append (n : Nat) (xs ys : List UInt8) :
    value n (xs ++ ys) = value (value n xs) ys := List.foldl_append

theorem value_print (n : Nat) : value 0 (print n) = n := by
  induction n using digit_cases with
  | digit n h =>
    rw [print_of_lt h, value, List.foldl_cons, List.foldl_nil, (digitChar n h).1]
    omega
  | snoc n d hn hd ih =>
    rw [print_append hn hd, value_append, ih, print_of_lt hd, value, List.foldl_cons, List.foldl_nil,
      (digitChar d hd).1]
    omega

theorem value_zeros (k : Nat) (chars : List UInt8) :
    value 0 (List.replicate k 48 ++ chars) = value 0 chars := by
  induction k with
  | zero => rfl
  | succ k ih => exact ih

/-- A number in at least so many characters, with zeros in front. -/
def padded (width n : Nat) : List UInt8 :=
  List.replicate (width - (print n).length) 48 ++ print n

def isSpace (c : UInt8) : Bool := c = 32 || 9 ≤ c && c ≤ 13

/-- A sign, if there is one, and what follows. -/
def scanSign (input : List UInt8) : Bool × List UInt8 :=
  match input with
  | [] => (false, [])
  | c :: rest => if c = 45 then (true, rest) else if c = 43 then (false, rest) else (false, input)

/-- What a conversion of an `int` takes from the input: space in front, a sign and all the digits that
follow, of which there must be one. -/
def scanInt (input : List UInt8) : Option (Int × List UInt8) :=
  let (negative, input) := scanSign (input.dropWhile isSpace)
  let digits := input.takeWhile isDigit
  if digits = [] then none
  else some (if negative then -value 0 digits else value 0 digits, input.dropWhile isDigit)

/-- The conversion of an `int`, a character that must come next, or any amount of space. -/
inductive Directive where
  | int
  | char (c : UInt8)
  | space

/-- The numbers that are read until the format is at its end or the input does not match it. -/
def sscanf : List Directive → List UInt8 → List Int
  | [], _ => []
  | .int :: format, input =>
    match scanInt input with
    | none => []
    | some (n, rest) => n :: sscanf format rest
  | .char c :: format, input =>
    match input with
    | [] => []
    | d :: rest => if d = c then sscanf format rest else []
  | .space :: format, input => sscanf format (input.dropWhile isSpace)

/-- A numeral of a number: its digits, with any zeros in front. -/
def Numeral (n : Nat) (chars : List UInt8) : Prop := ∃ k, chars = List.replicate k 48 ++ print n

theorem Numeral.print (n : Nat) : Numeral n (print n) := ⟨0, rfl⟩

theorem Numeral.padded (width n : Nat) : Numeral n (padded width n) := ⟨_, rfl⟩

namespace Numeral
variable {n : Nat} {chars : List UInt8}

theorem digits (h : Numeral n chars) : ∀ c ∈ chars, isDigit c = true := by
  obtain ⟨k, rfl⟩ := h
  rw [List.forall_mem_append]
  refine ⟨fun c hc => ?_, isDigit_print n⟩
  rw [List.eq_of_mem_replicate hc]
  decide

theorem ne_nil (h : Numeral n chars) : chars ≠ [] := by
  obtain ⟨k, rfl⟩ := h
  exact List.append_ne_nil_of_right_ne_nil _ (print_ne_nil n)

theorem value (h : Numeral n chars) : value 0 chars = n := by
  obtain ⟨k, rfl⟩ := h
  rw [value_zeros, value_print]

theorem head_not_space {c : UInt8} (hc : isDigit c = true) :
    isSpace c = false ∧ c ≠ 45 ∧ c ≠ 43 := by
  rw [isDigit, Bool.and_eq_true, decide_eq_true_eq, decide_eq_true_eq] at hc
  refine ⟨?_, ?_, ?_⟩
  · grind [isSpace]
  · rintro rfl
    exact absurd hc (by decide)
  · rintro rfl
    exact absurd hc (by decide)

theorem scanSign_dropWhile (h : Numeral n chars) (rest : List UInt8) :
    (chars ++ rest).dropWhile isSpace = chars ++ rest ∧
      scanSign (chars ++ rest) = (false, chars ++ rest) := by
  obtain ⟨c, tail, rfl⟩ := List.exists_cons_of_ne_nil h.ne_nil
  obtain ⟨hspace, hminus, hplus⟩ := head_not_space (h.digits c List.mem_cons_self)
  rw [List.cons_append]
  constructor
  · exact List.dropWhile_cons_of_neg (by rw [hspace]; exact Bool.false_ne_true)
  · rw [scanSign, if_neg hminus, if_neg hplus]

theorem scanInt (h : Numeral n chars) (rest : List UInt8)
    (hrest : rest.takeWhile isDigit = []) : scanInt (chars ++ rest) = some ((n : Int), rest) := by
  have htake : (chars ++ rest).takeWhile isDigit = chars := by
    rw [List.takeWhile_append_of_pos h.digits, hrest, List.append_nil]
  have hdrop : (chars ++ rest).dropWhile isDigit = rest := by
    have hsplit := List.takeWhile_append_dropWhile (p := isDigit) (l := chars ++ rest)
    rw [htake] at hsplit
    exact List.append_cancel_left hsplit
  obtain ⟨hspace, hsign⟩ := h.scanSign_dropWhile rest
  rw [Decimal.scanInt, hspace, hsign]
  dsimp only
  rw [htake, hdrop, if_neg h.ne_nil, h.value]
  rfl

theorem sscanf_last (h : Numeral n chars) : sscanf [.int] chars = [(n : Int)] := by
  have hscan := h.scanInt [] List.takeWhile_nil
  rw [List.append_nil] at hscan
  simp only [sscanf, hscan]

theorem sscanf_space (h : Numeral n chars) {m : Nat} {chars' : List UInt8} (h' : Numeral m chars')
    (format : List Directive) (rest : List UInt8) :
    sscanf (.int :: .space :: format) (chars ++ 32 :: (chars' ++ rest)) =
      (n : Int) :: sscanf format (chars' ++ rest) := by
  have hscan := h.scanInt (32 :: (chars' ++ rest))
    (List.takeWhile_cons_of_neg Bool.false_ne_true)
  have hspace : (32 :: (chars' ++ rest)).dropWhile isSpace = chars' ++ rest := by
    rw [List.dropWhile_cons_of_pos rfl, (h'.scanSign_dropWhile rest).1]
  simp only [sscanf, hscan, hspace]

theorem sscanf_char (h : Numeral n chars) {c : UInt8} (hc : isDigit c = false)
    (format : List Directive) (rest : List UInt8) :
    sscanf (.int :: .char c :: format) (chars ++ c :: rest) = (n : Int) :: sscanf format rest := by
  have hscan := h.scanInt (c :: rest) (List.takeWhile_cons_of_neg (by rw [hc]; decide))
  simp only [sscanf, hscan, if_pos]

end Numeral
end SocketCPlusPlus.Foundation.Decimal
