import HttpsTunnel.Lib.Decimal
import HttpsTunnel.Wire.Message

/-! # The accounts in redis

The recorder keeps the accounts in redis under keys made of a kind, a mobile number and an
application: the token under `auth`, the balance as decimal text under `bal`, the list of details
under `dtl`.  Keys and values are texts.  `Redis.exec` is what the server does with one command;
`execCommand` is `RedisConnPool::exec_command`, whose reply can be missing or can be another one,
whether or not the server executed the command.  A command is one argument list here: the texts
`sprintf` puts together have no blank in a key or in a balance. -/

namespace HttpsTunnel.Recorder

open HttpsTunnel.Lib HttpsTunnel.Wire

/-! ### Keys -/

inductive Kind where
  | auth
  | bal
  | dtl
deriving DecidableEq, Repr

def Kind.text : Kind → List Char
  | auth => ['a', 'u', 't', 'h']
  | bal => ['b', 'a', 'l']
  | dtl => ['d', 't', 'l']

/-- `"<kind>:%0.11lu:%0.8lu"`. -/
def key (k : Kind) (mobile app : ℕ) : List Char :=
  k.text ++ ':' :: (decimal 11 mobile ++ ':' :: decimal 8 app)

theorem colon_notMem_decimal (p n : ℕ) : ':' ∉ decimal p n := fun h =>
  absurd (isDigit_of_mem_decimal h) (by decide)

theorem Kind.colon_notMem_text (k : Kind) : ':' ∉ k.text := by cases k <;> decide

theorem Kind.text_injective : Function.Injective Kind.text := by
  intro a b h
  cases a <;> cases b <;> first | rfl | exact absurd h (by decide)

/-- Different accounts have different keys. -/
theorem key_inj {k k' : Kind} {mobile mobile' app app' : ℕ} :
    key k mobile app = key k' mobile' app' ↔ k = k' ∧ mobile = mobile' ∧ app = app' := by
  constructor
  · intro h
    obtain ⟨hk, h⟩ := append_sep_inj k.colon_notMem_text k'.colon_notMem_text h
    obtain ⟨hm, ha⟩ := append_sep_inj (colon_notMem_decimal _ _) (colon_notMem_decimal _ _) h
    exact ⟨Kind.text_injective hk, decimal_injective _ hm, decimal_injective _ ha⟩
  · rintro ⟨rfl, rfl, rfl⟩
    rfl

/-! ### Commands -/

inductive Value where
  | str (s : List Char)
  | list (l : List (List Char))
deriving DecidableEq, Repr

/-- The content of the server. -/
structure Redis where
  data : List Char → Option Value

inductive Cmd where
  | get (k : List Char)
  | set (k v : List Char)
  | rpush (k v : List Char)
  | expire (k : List Char) (seconds : ℕ)
deriving DecidableEq, Repr

inductive Reply where
  | nil
  | string (s : List Char)
  | status (s : List Char)
  | integer (n : ℤ)
  | error
deriving DecidableEq, Repr

namespace Redis

def put (r : Redis) (k : List Char) (v : Value) : Redis := ⟨Function.update r.data k (some v)⟩

theorem put_data_self (r : Redis) (k : List Char) (v : Value) : (r.put k v).data k = some v :=
  Function.update_self ..

theorem put_data_of_ne {r : Redis} {k k' : List Char} (h : k ≠ k') (v : Value) :
    (r.put k' v).data k = r.data k := Function.update_of_ne h ..

/-- One command at the server.  That a key runs out is not modelled. -/
def exec (r : Redis) : Cmd → Redis × Reply
  | .get k =>
      match r.data k with
      | none => (r, .nil)
      | some (.str s) => (r, .string s)
      | some (.list _) => (r, .error)
  | .set k v => (r.put k (.str v), .status ['O', 'K'])
  | .rpush k v =>
      match r.data k with
      | none => (r.put k (.list [v]), .integer 1)
      | some (.list l) => (r.put k (.list (l ++ [v])), .integer (l.length + 1))
      | some (.str _) => (r, .error)
  | .expire k _ => (r, .integer (if (r.data k).isSome then 1 else 0))

end Redis

/-- What becomes of a command: it is executed and answered, or something fails, with or without the
command having been executed, and the caller sees some other reply or none. -/
inductive Outcome where
  | ok
  | failed (executed : Bool) (reply : Option Reply)
deriving DecidableEq, Repr

/-- `RedisConnPool::exec_command`; `none` is the null reply. -/
def execCommand (r : Redis) (c : Cmd) : Outcome → Redis × Option Reply
  | .ok => ((r.exec c).1, some (r.exec c).2)
  | .failed true reply => ((r.exec c).1, reply)
  | .failed false reply => (r, reply)

/-! ### Balances -/

/-- The balance stored for an account. -/
def Redis.balance (r : Redis) (mobile app : ℕ) : Option ℤ :=
  match r.data (key .bal mobile app) with
  | some (.str s) => some (atoll s)
  | _ => none

section Balance

variable {r : Redis} {mobile app : ℕ} {k : List Char} {v : Value}

theorem balance_put_of_ne (h : k ≠ key .bal mobile app) :
    (r.put k v).balance mobile app = r.balance mobile app := by
  simp only [Redis.balance, Redis.put_data_of_ne h.symm]

theorem balance_put_self {s : List Char} :
    (r.put (key .bal mobile app) (.str s)).balance mobile app = some (atoll s) := by
  simp only [Redis.balance, Redis.put_data_self]

end Balance

end HttpsTunnel.Recorder
