import HttpsTunnel.Lib.Decimal
import HttpsTunnel.Wire.Message

/-! # Scanning a hash

`RedisConnect::exec_v_command_hscan` reads the reply to an HSCAN: a cursor and an array in which keys
and values alternate.  It has three variants, for the keys, for the values and for both.  The first
two take every other element.  The third goes through the elements one by one and takes each of
them for a key and for its value at once, so every text comes out twice (`collectAll_pairs`) and only
a reply without elements is read as it should be (`hscan_variants_iff`). -/

namespace HttpsTunnel.Recorder

open HttpsTunnel.Lib HttpsTunnel.Wire

/-- `redisReply`.  The elements of an array are never null. -/
inductive RedisReply where
  | string (str : List Char)
  | array (element : List RedisReply)
  | integer (n : ℤ)
  | nil
  | status (str : List Char)
  | error (str : List Char)

namespace RedisReply

/-- The field `str`, null where a reply has no text. -/
def str : RedisReply → Option (List Char)
  | string s | status s | error s => some s
  | array _ | integer _ | nil => none

/-- The fields `element` and `elements`. -/
def element : RedisReply → List RedisReply
  | array l => l
  | _ => []

/-- `strcasecmp(str, "OK") == 0`. -/
def saysOk (str : List Char) : Bool := str.map Char.toLower = ['o', 'k']

/-- `RedisConnect::check_reply`. -/
def check : RedisReply → Bool
  | string _ | array _ | integer _ | nil => true
  | status s => saysOk s
  | error _ => false

/-- `result.assign(str, len)` and `push_back`, for a reply of type string. -/
def pushTo (out : List (List Char)) : RedisReply → List (List Char)
  | string s => out ++ [s]
  | _ => out

end RedisReply

inductive HscanFault where
  /-- The text of a reply that has none is read. -/
  | nullText
  /-- An element behind the last one is read. -/
  | overread
deriving DecidableEq, Repr

/-- The arguments `curserid` and `vresult`, which the caller passes by reference. -/
structure Scan where
  curserid : ℤ
  vresult : List (List Char)
deriving DecidableEq, Repr

/-! ### The loops -/

/-- One round of a loop that looks at one element: none ends it with -1. -/
def takeElement (out : List (List Char)) (r : RedisReply) : Option (List (List Char)) :=
  if r.check then some (r.pushTo out) else none

/-- The loop with `i += 2`: `pick` is the element it looks at, of those at `i` and `i + 1`. -/
def collectHalf (pick : RedisReply → Option RedisReply → Option RedisReply) :
    List RedisReply → List (List Char) → Except HscanFault (ℤ × List (List Char))
  | [], out => .ok (0, out)
  | [e], out =>
      match pick e none with
      | none => .error .overread
      | some r =>
          match takeElement out r with
          | none => .ok (-1, out)
          | some out' => .ok (0, out')
  | e :: e' :: es, out =>
      match pick e (some e') with
      | none => .error .overread
      | some r =>
          match takeElement out r with
          | none => .ok (-1, out)
          | some out' => collectHalf pick es out'

/-- The loop of the third variant: `pKey` and `pVal` are both the element at `i`. -/
def collectAll : List RedisReply → List (List Char) → Except HscanFault (ℤ × List (List Char))
  | [], out => .ok (0, out)
  | e :: es, out =>
      if e.check then collectAll es (e.pushTo (e.pushTo out)) else .ok (-1, out)

/-! ### The variants -/

/-- What the variants have in common: the cursor is read and the loop runs over the second element. -/
def execHscan (collect : List RedisReply → List (List Char) → Except HscanFault (ℤ × List (List Char)))
    (reply : Option RedisReply) (sc : Scan) : Except HscanFault (ℤ × Scan) :=
  match reply with
  | none => .ok (-1, sc)
  | some (.array []) => .ok (0, { sc with curserid := 0 })
  | some (.array (e₀ :: es)) =>
      match e₀.str, es with
      | none, _ => .error .nullText
      | some _, [] => .error .overread
      | some cursor, e₁ :: _ =>
          (collect e₁.element sc.vresult).map fun r => (r.1, ⟨wrapI64 (strtoull cursor), r.2⟩)
  | some _ => .ok (-1, sc)

/-- `exec_v_command_hscan<REDIS_SCAN_TYPE_KEY>`. -/
def execHscanKey : Option RedisReply → Scan → Except HscanFault (ℤ × Scan) :=
  execHscan (collectHalf fun e _ => some e)

/-- `exec_v_command_hscan<REDIS_SCAN_TYPE_VAL>`. -/
def execHscanVal : Option RedisReply → Scan → Except HscanFault (ℤ × Scan) :=
  execHscan (collectHalf fun _ e' => e')

/-- `exec_v_command_hscan<REDIS_SCAN_TYPE_ALL>`. -/
def execHscanAll : Option RedisReply → Scan → Except HscanFault (ℤ × Scan) := execHscan collectAll

/-! ### Replies to HSCAN -/

/-- The elements `k₁ v₁ … kₙ vₙ`. -/
def pairElements (kvs : List (List Char × List Char)) : List RedisReply :=
  kvs.flatMap fun kv => [.string kv.1, .string kv.2]

/-- The reply to an HSCAN with these pairs; `more` would be elements behind the second. -/
def hscanReply (cursor : List Char) (kvs : List (List Char × List Char)) (more : List RedisReply) :
    Option RedisReply :=
  some (.array (.string cursor :: .array (pairElements kvs) :: more))

section Pairs

variable (kvs : List (List Char × List Char)) (out : List (List Char))

theorem collectHalf_pairs {pick : RedisReply → Option RedisReply → Option RedisReply}
    {f : List Char × List Char → List Char}
    (hp : ∀ kv : List Char × List Char, pick (.string kv.1) (some (.string kv.2)) = some (.string (f kv))) :
    collectHalf pick (pairElements kvs) out = .ok (0, out ++ kvs.map f) := by
  induction kvs generalizing out with
  | nil => simp [pairElements, collectHalf]
  | cons kv kvs ih =>
      have ih := ih (out ++ [f kv])
      simp only [pairElements, List.flatMap_cons, List.cons_append, List.nil_append] at ih ⊢
      simp [collectHalf, hp, takeElement, RedisReply.check, RedisReply.pushTo, ih]

/-- The third variant gives every key and every value twice. -/
theorem collectAll_pairs :
    collectAll (pairElements kvs) out =
      .ok (0, out ++ kvs.flatMap fun kv => [kv.1, kv.1, kv.2, kv.2]) := by
  induction kvs generalizing out with
  | nil => simp [pairElements, collectAll]
  | cons kv kvs ih =>
      have ih := ih (out ++ [kv.1, kv.1, kv.2, kv.2])
      simp only [pairElements, List.flatMap_cons, List.cons_append, List.nil_append] at ih ⊢
      simpa [collectAll, RedisReply.check, RedisReply.pushTo] using ih

/-- A list with every text twice is longer than one with every text once, unless there is none. -/
theorem flatMap_twice_eq_iff :
    (kvs.flatMap fun kv => [kv.1, kv.1, kv.2, kv.2]) = (kvs.flatMap fun kv => [kv.1, kv.2]) ↔
      kvs = [] := by
  constructor
  · intro h
    have hl := congrArg List.length h
    simp only [List.length_flatMap, List.length_cons, List.length_nil, List.map_const', List.sum_replicate_nat] at hl
    exact List.length_eq_zero_iff.mp (by omega)
  · rintro rfl
    rfl

end Pairs

/-- **The variants of HSCAN agree** exactly on replies without elements: all three return 0 with the same
cursor, and the keys, the values and both in turn are appended. -/
theorem hscan_variants_iff (cursor : List Char) (kvs : List (List Char × List Char))
    (more : List RedisReply) (sc : Scan) :
    execHscanKey (hscanReply cursor kvs more) sc =
        .ok (0, ⟨wrapI64 (strtoull cursor), sc.vresult ++ kvs.map Prod.fst⟩) ∧
      execHscanVal (hscanReply cursor kvs more) sc =
        .ok (0, ⟨wrapI64 (strtoull cursor), sc.vresult ++ kvs.map Prod.snd⟩) ∧
      (execHscanAll (hscanReply cursor kvs more) sc =
        .ok (0, ⟨wrapI64 (strtoull cursor), sc.vresult ++ kvs.flatMap fun kv => [kv.1, kv.2]⟩) ↔
          kvs = []) := by
  have hkey : collectHalf (fun e _ => some e) (pairElements kvs) sc.vresult =
      .ok (0, sc.vresult ++ kvs.map Prod.fst) := collectHalf_pairs kvs sc.vresult fun _ => rfl
  have hval : collectHalf (fun _ e' => e') (pairElements kvs) sc.vresult =
      .ok (0, sc.vresult ++ kvs.map Prod.snd) := collectHalf_pairs kvs sc.vresult fun _ => rfl
  refine ⟨?_, ?_, ?_⟩
  · simp [execHscanKey, execHscan, hscanReply, RedisReply.str, RedisReply.element, hkey, Except.map]
  · simp [execHscanVal, execHscan, hscanReply, RedisReply.str, RedisReply.element, hval, Except.map]
  · simp [execHscanAll, execHscan, hscanReply, RedisReply.str, RedisReply.element,
      collectAll_pairs, Except.map, flatMap_twice_eq_iff]

/-- One pair, after the cursor 7. -/
theorem hscanAll_doubles :
    execHscanAll (hscanReply ['7'] [(['k'], ['v'])] []) ⟨0, []⟩ =
      .ok (0, ⟨7, [['k'], ['k'], ['v'], ['v']]⟩) ∧
    execHscanKey (hscanReply ['7'] [(['k'], ['v'])] []) ⟨0, []⟩ = .ok (0, ⟨7, [['k']]⟩) ∧
    execHscanVal (hscanReply ['7'] [(['k'], ['v'])] []) ⟨0, []⟩ = .ok (0, ⟨7, [['v']]⟩) := by
  decide +kernel

end HttpsTunnel.Recorder
