import Mathlib.Data.Nat.Digits.Lemmas
import OutRelay.GoString

/-!
# Network addresses as text

A `net.Addr` is printed as `host:port`, with brackets around a host that
contains a colon itself (`net.JoinHostPort`), and read back by
`net.SplitHostPort` and `strconv.Atoi`. This is the part of those two packages
that a server needs to echo an address: the functions as the standard library
computes them, and that they undo each other on every host without brackets
(`splitHostPort_joinHostPort`) and on every port (`atoi_itoa`).
-/

namespace GoString

/-! ## Cutting at a byte -/

/-- What is before and after the first `sep`. -/
def cutFirst (sep : UInt8) : GoString → Option (GoString × GoString)
  | [] => none
  | c :: s => if c = sep then some ([], s) else (cutFirst sep s).map (Prod.map (c :: ·) id)

/-- What is before and after the last `sep`. -/
def cutLast (sep : UInt8) : GoString → Option (GoString × GoString)
  | [] => none
  | c :: s =>
    match cutLast sep s with
    | some (a, b) => some (c :: a, b)
    | none => if c = sep then some ([], s) else none

variable {sep : UInt8} {a b : GoString}

theorem cutFirst_append (ha : sep ∉ a) : cutFirst sep (a ++ sep :: b) = some (a, b) := by
  induction a with
  | nil => exact if_pos rfl
  | cons c a ih =>
    rw [List.mem_cons, not_or] at ha
    rw [List.cons_append, cutFirst, if_neg (Ne.symm ha.1), ih ha.2]
    rfl

theorem cutLast_eq_none (hb : sep ∉ b) : cutLast sep b = none := by
  induction b with
  | nil => rfl
  | cons c b ih =>
    rw [List.mem_cons, not_or] at hb
    rw [cutLast, ih hb.2]
    exact if_neg (Ne.symm hb.1)

theorem cutLast_append (hb : sep ∉ b) : cutLast sep (a ++ sep :: b) = some (a, b) := by
  induction a with
  | nil =>
    rw [List.nil_append, cutLast, cutLast_eq_none hb]
    exact if_pos rfl
  | cons c a ih => rw [List.cons_append, cutLast, ih]

/-! ## Host and port -/

/-- The bytes `:`, `[` and `]`. -/
def colon : UInt8 := 58

@[inherit_doc colon] def lbracket : UInt8 := 91

@[inherit_doc colon] def rbracket : UInt8 := 93

/-- The reasons of a `net.AddrError`. -/
inductive AddrError
  | missingPort
  | tooManyColons
  | missingBracket
  | unexpectedLBracket
  | unexpectedRBracket
  deriving DecidableEq

/-- The end of `SplitHostPort`: no `[` in `hostport[j:]`, no `]` in
`hostport[k:]`. -/
def checkBrackets (fromJ fromK host port : GoString) :
    Except AddrError (GoString × GoString) :=
  if lbracket ∈ fromJ then .error .unexpectedLBracket
  else if rbracket ∈ fromK then .error .unexpectedRBracket
  else .ok (host, port)

/-- `net.SplitHostPort`. -/
def splitHostPort (hostport : GoString) : Except AddrError (GoString × GoString) :=
  match cutLast colon hostport with
  | none => .error .missingPort
  | some (upToPort, port) =>
    match hostport with
    | [] => .error .missingPort
    | c :: rest =>
      if c = lbracket then
        match cutFirst rbracket rest with
        | none => .error .missingBracket
        | some (host, after) =>
          if after = [] then .error .missingPort
          -- the last colon is the one after the bracket
          else if upToPort.length = host.length + 2 then checkBrackets rest after host port
          else if after.head? = some colon then .error .tooManyColons
          else .error .missingPort
      else if colon ∈ upToPort then .error .tooManyColons
      else checkBrackets hostport hostport upToPort port

/-- `net.JoinHostPort`. -/
def joinHostPort (host port : GoString) : GoString :=
  if colon ∈ host then lbracket :: (host ++ rbracket :: colon :: port) else host ++ colon :: port

/-- **Splitting undoes joining**, for a host and a port without brackets and a
port without a colon. -/
theorem splitHostPort_joinHostPort {host port : GoString}
    (hhost : lbracket ∉ host ∧ rbracket ∉ host) (hport : lbracket ∉ port ∧ rbracket ∉ port)
    (hcolon : colon ∉ port) : splitHostPort (joinHostPort host port) = .ok (host, port) := by
  unfold joinHostPort
  split_ifs with hc
  · have hlast : cutLast colon (lbracket :: (host ++ rbracket :: colon :: port))
        = some (lbracket :: (host ++ [rbracket]), port) := by
      rw [← cutLast_append (a := lbracket :: (host ++ [rbracket])) hcolon]
      simp
    have hbr : ¬ lbracket = rbracket ∧ ¬ lbracket = colon ∧ ¬ rbracket = colon := by decide
    simp [splitHostPort, hlast, cutFirst_append hhost.2, checkBrackets, hhost.1, hport.1,
      hport.2, hbr]
  · have hne : ¬ lbracket = colon ∧ ¬ rbracket = colon := by decide
    have hcheck : checkBrackets (host ++ colon :: port) (host ++ colon :: port) host port
        = .ok (host, port) := by
      simp [checkBrackets, hhost.1, hhost.2, hport.1, hport.2, hne]
    rw [splitHostPort, cutLast_append hcolon]
    cases host with
    | nil => simpa [hne.1, Ne.symm hne.1] using hcheck
    | cons c host =>
      have hfirst : ¬ c = lbracket := fun h => hhost.1 (h ▸ List.mem_cons_self)
      simpa [hfirst, hc] using hcheck

/-! ## Decimal numbers -/

/-- The digits of `s` after a number `n`, or `none` at a byte that is no digit. -/
def decimalFrom (n : ℕ) : GoString → Option ℕ
  | [] => some n
  | c :: s => if 48 ≤ c ∧ c ≤ 57 then decimalFrom (10 * n + (c.toNat - 48)) s else none

/-- A number without a sign. -/
def decimal (s : GoString) : Option ℕ := if s = [] then none else decimalFrom 0 s

/-- `strconv.Atoi`, for a 64-bit `int`: an optional sign and digits, within the
range of the type. -/
def atoi : GoString → Option ℤ
  | [] => none
  | c :: s =>
    if c = 45 then (decimal s).bind fun n => if n ≤ 2 ^ 63 then some (-(n : ℤ)) else none
    else (decimal (if c = 43 then s else c :: s)).bind fun n =>
      if n < 2 ^ 63 then some (n : ℤ) else none

/-- The byte of a digit. -/
def digit (d : ℕ) : UInt8 := UInt8.ofNat (48 + d)

/-- `strconv.Itoa`, for a number that is not negative. -/
def itoa (n : ℕ) : GoString :=
  if n = 0 then [digit 0] else (Nat.digits 10 n).reverse.map digit

theorem toNat_digit {d : ℕ} (hd : d < 10) : (digit d).toNat = 48 + d := by
  show (48 + d) % 2 ^ 8 = 48 + d
  omega

theorem decimalFrom_digit {d n : ℕ} {s : GoString} (hd : d < 10) :
    decimalFrom n (digit d :: s) = decimalFrom (10 * n + d) s := by
  have hrange : 48 ≤ digit d ∧ digit d ≤ 57 := by
    constructor
    · show (48 : ℕ) ≤ (digit d).toNat
      rw [toNat_digit hd]
      omega
    · show (digit d).toNat ≤ (57 : ℕ)
      rw [toNat_digit hd]
      omega
  rw [decimalFrom, if_pos hrange, toNat_digit hd, Nat.add_sub_cancel_left]

theorem decimalFrom_map {ds : List ℕ} {n : ℕ} (hds : ∀ d ∈ ds, d < 10) :
    decimalFrom n (ds.map digit) = some (ds.foldl (fun n d => 10 * n + d) n) := by
  induction ds generalizing n with
  | nil => rfl
  | cons d ds ih =>
    rw [List.forall_mem_cons] at hds
    rw [List.map_cons, decimalFrom_digit hds.1, ih hds.2, List.foldl_cons]

/-- Reading the digits from the left gives the number. -/
theorem foldl_digits (n : ℕ) :
    (Nat.digits 10 n).reverse.foldl (fun n d => 10 * n + d) 0 = n := by
  rw [List.foldl_reverse]
  calc (Nat.digits 10 n).foldr (fun d n => 10 * n + d) 0
      = Nat.ofDigits 10 (Nat.digits 10 n) := by
        rw [Nat.ofDigits_eq_foldr]
        congr 1
        funext d n
        exact Nat.add_comm _ _
    _ = n := Nat.ofDigits_digits 10 n

theorem decimal_itoa (n : ℕ) : decimal (itoa n) = some n := by
  unfold itoa
  split_ifs with hn
  · rw [hn]
    rfl
  · have hne : (Nat.digits 10 n).reverse.map digit ≠ [] := by
      simpa [Nat.digits_ne_nil_iff_ne_zero] using hn
    have hlt : ∀ d ∈ (Nat.digits 10 n).reverse, d < 10 := fun d hd =>
      Nat.digits_lt_base (by decide) (List.mem_reverse.mp hd)
    rw [decimal, if_neg hne, decimalFrom_map hlt, foldl_digits]

/-- What `itoa` writes is digits. -/
theorem mem_itoa {n : ℕ} {c : UInt8} (hc : c ∈ itoa n) : 48 ≤ c.toNat ∧ c.toNat ≤ 57 := by
  have hdigit : ∃ d, d < 10 ∧ c = digit d := by
    unfold itoa at hc
    split_ifs at hc with hn
    · exact ⟨0, by decide, List.mem_singleton.mp hc⟩
    · obtain ⟨d, hd, rfl⟩ := List.mem_map.mp hc
      exact ⟨d, Nat.digits_lt_base (by decide) (List.mem_reverse.mp hd), rfl⟩
  obtain ⟨d, hd, rfl⟩ := hdigit
  rw [toNat_digit hd]
  omega

theorem not_mem_itoa {n : ℕ} {c : UInt8} (hc : c.toNat < 48 ∨ 57 < c.toNat) : c ∉ itoa n :=
  fun h => by
    have := mem_itoa h
    omega

theorem itoa_ne_nil (n : ℕ) : itoa n ≠ [] := by
  intro h
  have hdec := decimal_itoa n
  rw [h] at hdec
  cases hdec

/-- **Reading undoes writing**, within the range of `int`. -/
theorem atoi_itoa {n : ℕ} (hn : n < 2 ^ 63) : atoi (itoa n) = some (n : ℤ) := by
  obtain ⟨c, s, hs⟩ := List.exists_cons_of_ne_nil (itoa_ne_nil n)
  have hsign : ∀ b : UInt8, b.toNat < 48 → ¬ c = b := by
    rintro b hb rfl
    exact not_mem_itoa (Or.inl hb) (hs ▸ List.mem_cons_self)
  have hdec := decimal_itoa n
  rw [hs] at hdec
  rw [hs, atoi, if_neg (hsign 45 (by decide)), if_neg (hsign 43 (by decide)), hdec]
  exact if_pos hn

end GoString
