import UxContracts.ForStd.Table
import UxContracts.ForStd.Int64

/-!
# What the contracts use of the chain

Names, times, `check` and the context an action runs in. An action that fails a
`check` has no effect, so an action is a function into `Except String`, the error
being the text of the failed check.

Names, times and amounts have the widths of the source: `name` is an unsigned
64-bit number, a `time_point` counts microseconds in a signed 64-bit number, a
`time_point_sec` counts seconds and a block slot half seconds in 32 bits.

RAM billing is not modelled: the payer arguments of `emplace` and `modify` are
left out.
-/

namespace UxContracts

/-! ## Checks -/

/-- Abort the action with `msg` unless `c` holds. -/
def check (c : Prop) [Decidable c] (msg : String) : Except String Unit :=
  if c then .ok () else .error msg

/-- What a successful sequence of two steps did. -/
theorem bind_eq_ok {ε α β : Type} {x : Except ε α} {f : α → Except ε β} {b : β} :
    (x >>= f) = .ok b ↔ ∃ a, x = .ok a ∧ f a = .ok b := by
  cases x with
  | error e => simp [bind, Except.bind]
  | ok a => simp [bind, Except.bind]

/-- Where a failed sequence of two steps failed. -/
theorem bind_eq_error {ε α β : Type} {x : Except ε α} {f : α → Except ε β} {e : ε} :
    (x >>= f) = .error e ↔ x = .error e ∨ ∃ a, x = .ok a ∧ f a = .error e := by
  cases x with
  | error e' => simp [bind, Except.bind]
  | ok a => simp [bind, Except.bind]

/-- Sequences that go on in the same way after a successful first step. -/
theorem bind_congr_of_ok {ε α β : Type} {x : Except ε α} {f g : α → Except ε β}
    (h : ∀ a, x = .ok a → f a = g a) : (x >>= f) = (x >>= g) := by
  cases x with
  | error e => rfl
  | ok a => exact h a rfl

/-- A value that is returned is the result. -/
@[simp] theorem pure_eq_ok {ε α : Type} {a b : α} :
    (pure a : Except ε α) = .ok b ↔ a = b := by
  simp [pure, Except.pure]

/-- A value that is returned is no error. -/
@[simp] theorem pure_ne_error {ε α : Type} {a : α} {e : ε} :
    (pure a : Except ε α) = .error e ↔ False := by
  simp [pure, Except.pure]

/-- A check passes if its condition holds. -/
@[simp] theorem check_eq_ok {c : Prop} [Decidable c] {msg : String} {u : Unit} :
    check c msg = .ok u ↔ c := by
  unfold check
  split <;> simp_all

/-- A check fails with its own message. -/
@[simp] theorem check_eq_error {c : Prop} [Decidable c] {msg e : String} :
    check c msg = .error e ↔ ¬ c ∧ e = msg := by
  unfold check
  split <;> simp_all [eq_comm]

/-- A passed check in front of a sequence. -/
theorem check_bind_eq_ok {c : Prop} [Decidable c] {msg : String} {β : Type}
    {f : Unit → Except String β} {b : β} :
    (check c msg >>= f) = .ok b ↔ c ∧ f () = .ok b := by
  rw [bind_eq_ok]
  exact ⟨fun ⟨_, hc, h⟩ => ⟨check_eq_ok.mp hc, h⟩, fun ⟨hc, h⟩ => ⟨(), check_eq_ok.mpr hc, h⟩⟩

/-- A check in front of a failed sequence. -/
theorem check_bind_eq_error {c : Prop} [Decidable c] {msg e : String} {β : Type}
    {f : Unit → Except String β} :
    (check c msg >>= f) = .error e ↔ (¬ c ∧ e = msg) ∨ (c ∧ f () = .error e) := by
  rw [bind_eq_error, check_eq_error]
  exact or_congr_right
    ⟨fun ⟨_, hc, h⟩ => ⟨check_eq_ok.mp hc, h⟩, fun ⟨hc, h⟩ => ⟨(), check_eq_ok.mpr hc, h⟩⟩

/-- A sequence whose check passes. -/
theorem check_bind_of {c : Prop} [Decidable c] {msg : String} {β : Type}
    {f : Unit → Except String β} (h : c) : (check c msg >>= f) = f () := by
  unfold check
  rw [if_pos h]
  rfl

/-! ## Names -/

/-- An account name. -/
structure Name where
  value : UInt64
deriving DecidableEq, Repr

namespace Name

instance : LinearOrder Name :=
  LinearOrder.lift' (fun n => n.value.toNat) (by
    rintro ⟨a⟩ ⟨b⟩ h
    simpa using UInt64.toNat_inj.mp h)

instance : Inhabited Name := ⟨⟨0⟩⟩

/-- The conversion to `bool`: only the empty name is false. -/
def isSet (n : Name) : Prop := n.value ≠ 0

instance (n : Name) : Decidable n.isSet := inferInstanceAs (Decidable (_ ≠ _))

/-- The five bits of a character of a name. -/
def charToValue (c : Char) : UInt64 :=
  if c = '.' then 0
  else if '1' ≤ c ∧ c ≤ '5' then (c.toNat - '1'.toNat + 1).toUInt64
  else (c.toNat - 'a'.toNat + 6).toUInt64

/-- The name literal `s`: twelve characters of five bits and one of four. -/
def ofString (s : String) : Name :=
  let cs := s.toList
  let head := (cs.take 12).foldl (fun (v : UInt64) c => (v <<< 5) ||| charToValue c) 0
  let head := head <<< (4 + 5 * (12 - (cs.take 12).length)).toUInt64
  match cs[12]? with
  | some c => ⟨head ||| charToValue c⟩
  | none => ⟨head⟩

/-- Where the part of a name after its last dot starts, counted from the lowest bit, or
    zero. Dots at the end of a name are padding and do not count. -/
def lastDot (n : Name) : Nat :=
  -- the first component is the position of the last dot seen, the second one the
  -- position of the last dot that a character follows
  let (seen, last) := (List.range 12).foldl (fun (p : Nat × Nat) i =>
    let remaining := 59 - 5 * i
    if (n.value >>> remaining.toUInt64) &&& 0x1F = 0 then (remaining, p.2) else (p.1, p.1)) (0, 0)
  if n.value &&& 0x0F ≠ 0 then seen else last

/-- The part of a name after its last dot. -/
def suffix (n : Name) : Name :=
  if n.lastDot = 0 then n
  else
    let mask := ((1 : UInt64) <<< n.lastDot.toUInt64) - 16
    let shift := (64 - n.lastDot).toUInt64
    ⟨((n.value &&& mask) <<< shift) + ((n.value &&& 0x0F) <<< (shift - 1))⟩

example : (ofString "eosio.token").suffix = ofString "token" := by decide +kernel

/-- The characters of a name in the order of their values. -/
def charmap : List Char :=
  ['.', '1', '2', '3', '4', '5', 'a', 'b', 'c', 'd', 'e', 'f', 'g', 'h', 'i', 'j', 'k', 'l', 'm',
    'n', 'o', 'p', 'q', 'r', 's', 't', 'u', 'v', 'w', 'x', 'y', 'z']

/-- `i` characters are still to be written; trailing zero bits are not written. -/
def writeAsString : Nat → UInt64 → List Char
  | 0, _ => []
  | i + 1, v =>
    if v = 0 then []
    else
      let indx := (v &&& 0xF800000000000000) >>> (if i = 0 then 60 else 59)
      charmap.getD indx.toNat '.' :: writeAsString i (v <<< 5)

/-- The text of a name. -/
def toText (n : Name) : List Char := writeAsString 13 n.value

example : (ofString "eosio.token").toText = "eosio.token".toList := by decide +kernel

/-- A name is written with the characters of the map only. -/
theorem mem_charmap_of_mem_toText {n : Name} {c : Char} (h : c ∈ n.toText) : c ∈ charmap := by
  suffices ∀ i v, c ∈ writeAsString i v → c ∈ charmap from this 13 n.value h
  intro i
  induction i with
  | zero => intro v hv; cases hv
  | succ i ih =>
    intro v hv
    simp only [writeAsString] at hv
    split at hv
    · cases hv
    · rcases List.mem_cons.mp hv with rfl | hv
      · rw [List.getD_eq_getElem?_getD]
        generalize ((v &&& 0xF800000000000000) >>> (if i = 0 then 60 else 59)).toNat = j
        cases hj : charmap[j]? with
        | none => simp [charmap]
        | some d => exact List.mem_of_getElem? hj
      · exact ih _ hv

end Name

/-! ## Accounts of the system contract -/

def eosioAccount : Name := Name.ofString "eosio"
def tokenAccount : Name := Name.ofString "eosio.token"
def ramAccount : Name := Name.ofString "eosio.ram"
def stakeAccount : Name := Name.ofString "eosio.stake"
def bpayAccount : Name := Name.ofString "eosio.bpay"
def upayAccount : Name := Name.ofString "eosio.upay"

/-! ## Times -/

/-- Microseconds since the Unix epoch. -/
abbrev TimePoint := Int64

/-- Seconds since the Unix epoch. -/
abbrev TimePointSec := UInt32

/-- Half seconds since the start of the year 2000. -/
abbrev BlockTimestamp := UInt32

/-- The whole seconds of a time point. -/
def TimePoint.secSinceEpoch (t : TimePoint) : UInt32 := (t / 1000000).toUInt64.toUInt32

/-- The time point of a whole second. -/
def TimePoint.ofSec (t : TimePointSec) : TimePoint := t.toUInt64.toInt64 * 1000000

/-- Milliseconds from the Unix epoch to slot zero. -/
def blockTimestampEpoch : Int64 := 946684800000

/-- The slot a time point falls into. -/
def TimePoint.toSlot (t : TimePoint) : BlockTimestamp :=
  ((t / 1000 - blockTimestampEpoch) / 500).toUInt64.toUInt32

/-! ## The context of an action -/

/-- What an action can ask the chain about the transaction it runs in. -/
structure Context where
  /-- the accounts that have authorised the action -/
  auth : List Name
  /-- the time of the current block -/
  now : TimePoint
  /-- which accounts exist -/
  isAccount : Name → Bool

/-- Abort the action unless `n` has authorised it. -/
def requireAuth (ctx : Context) (n : Name) : Except String Unit :=
  check (n ∈ ctx.auth) "missing required authority"

/-- The context of an inline action sent with the authority of `auth`. -/
def Context.withAuth (ctx : Context) (auth : List Name) : Context := { ctx with auth := auth }

/-- The authority of an inline action is the one it is sent with. -/
@[simp] theorem Context.withAuth_auth (ctx : Context) (auth : List Name) :
    (ctx.withAuth auth).auth = auth := rfl

/-- An inline action sees the same accounts. -/
@[simp] theorem Context.withAuth_isAccount (ctx : Context) (auth : List Name) :
    (ctx.withAuth auth).isAccount = ctx.isAccount := rfl

/-- The authority check passes if the account has signed. -/
@[simp] theorem requireAuth_eq_ok {ctx : Context} {n : Name} {u : Unit} :
    requireAuth ctx n = .ok u ↔ n ∈ ctx.auth :=
  check_eq_ok

/-! ## Rows that must or must not exist -/

/-- The row of `k`, or abort with `msg`. -/
def Table.getRow {K V : Type} [LinearOrder K] (t : Table K V) (k : K) (msg : String) :
    Except String V :=
  match t.find? k with
  | some v => .ok v
  | none => .error msg

/-- `get` returns the row of the key. -/
@[simp] theorem getRow_eq_ok {K V : Type} [LinearOrder K] {t : Table K V} {k : K} {msg : String}
    {v : V} : Table.getRow t k msg = .ok v ↔ t.find? k = some v := by
  unfold Table.getRow
  split <;> simp_all

/-- `get` fails with its own message if there is no row. -/
@[simp] theorem getRow_eq_error {K V : Type} [LinearOrder K] {t : Table K V} {k : K}
    {msg e : String} : Table.getRow t k msg = .error e ↔ t.find? k = none ∧ e = msg := by
  unfold Table.getRow
  cases t.find? k with
  | none => simp [eq_comm]
  | some v => simp

/-- Fails with none of the texts in `errors`, if it fails. -/
def Avoids {α : Type} (errors : List String) (x : Except String α) : Prop :=
  ∀ e, x = .error e → e ∉ errors

/-- A sequence avoids the errors that both of its parts avoid. -/
theorem avoids_bind {α β : Type} {errors : List String} {x : Except String α}
    {f : α → Except String β} (hx : Avoids errors x)
    (hf : ∀ a, x = .ok a → Avoids errors (f a)) : Avoids errors (x >>= f) := by
  intro e he
  rcases bind_eq_error.mp he with h | ⟨a, ha, h⟩
  · exact hx e h
  · exact hf a ha e h

/-- A check avoids the errors other than its message. -/
theorem avoids_check {c : Prop} [Decidable c] {errors : List String} {msg : String}
    (h : msg ∉ errors) : Avoids errors (check c msg) := by
  intro e he
  exact (check_eq_error.mp he).2 ▸ h

/-- `get` avoids the errors other than its message. -/
theorem avoids_getRow {K V : Type} [LinearOrder K] {errors : List String}
    {t : Table K V} {k : K} {msg : String} (h : msg ∉ errors) :
    Avoids errors (Table.getRow t k msg) := by
  intro e he
  exact (getRow_eq_error.mp he).2 ▸ h

/-- A failure avoids the errors other than its message. -/
theorem avoids_error {α : Type} {errors : List String} {msg : String} (h : msg ∉ errors) :
    Avoids errors (.error msg : Except String α) := by
  intro e he
  cases he
  exact h

/-- A result is no error. -/
theorem avoids_ok {α : Type} {errors : List String} {a : α} :
    Avoids errors (.ok a : Except String α) := by
  intro e he
  cases he

/-- A branch avoids the errors that both sides avoid. -/
theorem avoids_ite {α : Type} {errors : List String} {c : Prop} [Decidable c]
    {x y : Except String α} (hx : Avoids errors x) (hy : Avoids errors y) :
    Avoids errors (if c then x else y) := by
  split
  · exact hx
  · exact hy

/-- A value that is returned is no error. -/
theorem avoids_pure {α : Type} {errors : List String} {a : α} :
    Avoids errors (pure a : Except String α) :=
  fun _ he => absurd he (by simp)

/-- Add the row of `k`. The database refuses a second row of one primary key. -/
def Table.emplaceRow {K V : Type} [LinearOrder K] (t : Table K V) (k : K) (v : V) :
    Except String (Table K V) :=
  match t.find? k with
  | some _ => .error "could not insert object, most likely a uniqueness constraint was violated"
  | none => .ok (t.set k v)

/-- `emplace` succeeds exactly on a key without a row. -/
@[simp] theorem emplaceRow_eq_ok {K V : Type} [LinearOrder K] {t t' : Table K V} {k : K} {v : V} :
    Table.emplaceRow t k v = .ok t' ↔ t.find? k = none ∧ t.set k v = t' := by
  unfold Table.emplaceRow
  split <;> simp_all

/-! ## Tables with numbered rows -/

/-- The key after the last one. The greatest keys are reserved. -/
def Table.availablePrimaryKey {V : Type} (t : Table Nat V) : Except String Nat :=
  let pk := match t.last? with
    | some (k, _) => k + 1
    | none => 0
  if pk < 2 ^ 64 - 2 then .ok pk
  else .error "next primary key in table is at autoincrement limit"

/-- The key after the last row. -/
theorem availablePrimaryKey_spec {V : Type} {t : Table Nat V} {pk k : Nat} {v : V}
    (hlast : t.last? = some (k, v)) (h : Table.availablePrimaryKey t = .ok pk) : pk = k + 1 := by
  simp only [Table.availablePrimaryKey, hlast] at h
  split at h
  · cases h
    rfl
  · cases h

/-- The first row with this value of an index, or abort with `msg`. -/
def Table.getBy {V I : Type} [DecidableEq I] (t : Table Nat V) (index : V → I) (value : I)
    (msg : String) : Except String (Nat × V) :=
  match t.findBy index value with
  | some r => .ok r
  | none => .error msg

/-- `get` on an index returns the first row of the index value. -/
@[simp] theorem getBy_eq_ok {V I : Type} [DecidableEq I] {t : Table Nat V} {index : V → I}
    {value : I} {msg : String} {r : Nat × V} :
    Table.getBy t index value msg = .ok r ↔ t.findBy index value = some r := by
  unfold Table.getBy
  split <;> simp_all

end UxContracts
