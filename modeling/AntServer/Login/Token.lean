/-
# AntServer.Login.Token — the fields of the two tokens of a login

`logind.auth_handler` and the last lines of `logind.login_handler`, of `service/login/logind.lua`. The token
of a client is six base64 texts joined by `$`; the token of the server is five fields joined by `$`. Both
are taken apart by `string.split`, which drops empty pieces, so the fields after an empty one move up and
the last one is nil.

An empty field has an empty base64 text. So the tokens without an empty field are those that are read as
they were written (`reads_iff`).
-/
import AntServer.Login.LoginMaster
import AntServer.Login.LoginServer

namespace AntServer.Login.LoginServer

/-! ## The token -/

/-- What `auth_handler` relies on of the base64 functions of `crypt`. -/
structure Crypt.Base64 (crypt : Crypt) : Prop where
  decode_encode : ∀ s, crypt.base64decode (crypt.base64encode s) = some s
  noDollar : ∀ s, 36 ∉ crypt.base64encode s
  encode_eq_nil : ∀ s, crypt.base64encode s = [] ↔ s = []

/-- The values of a client's token. -/
structure ClientToken where
  openId : LuaString
  sdk : LuaString
  serverId : LuaString
  pf : LuaString
  protocol : LuaString
  userData : LuaString
  deriving DecidableEq, Repr

/-- The values in their order. -/
def ClientToken.fields (t : ClientToken) : List LuaString :=
  [t.openId, t.sdk, t.serverId, t.pf, t.protocol, t.userData]

/-- Pieces joined by `$`. -/
def joinDollar (pieces : List LuaString) : LuaString := [36].intercalate pieces

section Handler

variable (crypt : Crypt)

/-- The token as a client writes it. -/
def ClientToken.text (t : ClientToken) : LuaString := joinDollar (t.fields.map crypt.base64encode)

/-! ## The handler -/

/-- `crypt.base64decode(args_array[i])`. -/
def decodeArg (argsArray : List LuaString) (i : Nat) : Except LuaError LuaString :=
  match luaIndex argsArray i with
  | none => .error (.raised "bad argument #1 to 'base64decode' (string expected, got nil)")
  | some text =>
    match crypt.base64decode text with
    | none => .error (.raised "Invalid base64 text")
    | some s => .ok s

/-- The first lines of `auth_handler`. -/
def decodeArgs (args : LuaString) : Except LuaError ClientToken := do
  let argsArray := stringSplit args 36
  let openId ← decodeArg crypt argsArray 1
  let sdk ← decodeArg crypt argsArray 2
  let serverId ← decodeArg crypt argsArray 3
  let pf ← decodeArg crypt argsArray 4
  let protocol ← decodeArg crypt argsArray 5
  let userData ← decodeArg crypt argsArray 6
  return { openId, sdk, serverId, pf, protocol, userData }

variable (loginAuth : LuaString → LuaString → LuaString → Except LuaError (Bool × Option LuaString))
  (getRealOpenid : LuaString → LuaString → LuaString → Except LuaError LuaString)

/-- The rest of `auth_handler`, with `login_auth` and `login_logic.get_real_openid`. -/
def authorize (t : ClientToken) : Except LuaError Auth := do
  let (ret, newOpenId) ← loginAuth t.openId t.sdk t.userData
  if ret then
    let uid ← getRealOpenid (newOpenId.getD t.openId) t.sdk t.pf
    return { server := t.serverId, uid := uid, pf := t.pf, protocol := t.protocol }
  else throw (.raised "login auth failed")

/-- `logind.auth_handler`. -/
def authHandler (args : LuaString) : Except LuaError Auth := do
  let t ← decodeArgs crypt args
  authorize loginAuth getRealOpenid t

end Handler

/-! ## What the login service writes -/

/-- The token `login_handler` returns, of the host and the port of `get_server`, the uid, the hexadecimal
text of the secret, and the subid. -/
def serverToken (host port uid secret subid : LuaString) : LuaString :=
  joinDollar [host, port, uid, secret, subid]

/-- A field without `$`. -/
abbrev Field := { s : LuaString // 36 ∉ s }

theorem bytes_append (s t : String) : bytes (s ++ t) = bytes s ++ bytes t := by
  simp [bytes]

/-- The token of the login service is this one. -/
theorem loginHandlerEnd_token (n : LoginNode) (uid : String) (call : Call) (subid : Nat) :
    bytes (n.loginHandlerEnd uid call subid).2 =
      serverToken (bytes call.conf.host) (bytes call.conf.port) (bytes uid) (bytes call.secret)
        (bytes (toString subid)) := by
  have hdollar : bytes "$" = [36] := by decide +kernel
  simp only [LoginNode.loginHandlerEnd, bytes_append, hdollar]
  simp [serverToken, joinDollar, List.intercalate, List.intersperse]

/-! ## Reading a client's token -/

/-- A computation raises when what follows raises in any case. -/
theorem bind_raises {α β : Type} (x : Except LuaError α) {f : α → Except LuaError β}
    (hf : ∀ a, ∃ e, f a = .error e) : ∃ e, (x >>= f) = .error e := by
  cases x with
  | error e => exact ⟨e, rfl⟩
  | ok a => exact hf a

section Reading

variable {crypt : Crypt} (h : crypt.Base64)

include h

/-- What `string.split` finds in a token: the texts of the values that are not empty. -/
theorem stringSplit_text (t : ClientToken) :
    stringSplit (t.text crypt) 36 = (t.fields.filter (· ≠ [])).map crypt.base64encode := by
  unfold ClientToken.text joinDollar
  rw [stringSplit_intercalate (by simp [ClientToken.fields])
    (by simpa using fun s _ => h.noDollar s), List.filter_map]
  congr 1
  exact List.filter_congr fun s _ => by simp [h.encode_eq_nil]

/-- A token without an empty value is decoded to its values. -/
theorem decodeArgs_of_ne {t : ClientToken} (ht : ∀ s ∈ t.fields, s ≠ []) :
    decodeArgs crypt (t.text crypt) = .ok t := by
  have hsplit : stringSplit (t.text crypt) 36 = t.fields.map crypt.base64encode := by
    rw [stringSplit_text h, List.filter_eq_self.mpr (by simpa using ht)]
  simp [decodeArgs, hsplit, decodeArg, luaIndex, ClientToken.fields, h.decode_encode, pure, bind,
    Except.pure, Except.bind]

/-- With an empty value there is no sixth piece, and the handler raises. -/
theorem decodeArgs_of_eq {t : ClientToken} (ht : ∃ s ∈ t.fields, s = []) :
    ∃ e, decodeArgs crypt (t.text crypt) = .error e := by
  have hlen : (stringSplit (t.text crypt) 36).length < 6 := by
    rw [stringSplit_text h, List.length_map]
    obtain ⟨s, hs, hnil⟩ := ht
    exact List.length_filter_lt_length_iff_exists.mpr ⟨s, hs, by simp [hnil]⟩
  have hnone : luaIndex (stringSplit (t.text crypt) 36) 6 = none := by
    unfold luaIndex
    rw [if_neg (by omega), List.getElem?_eq_none (by omega)]
  -- whatever the first five decodings give, the sixth one raises
  unfold decodeArgs
  refine bind_raises _ fun openId => bind_raises _ fun sdk => bind_raises _ fun serverId =>
    bind_raises _ fun pf => bind_raises _ fun protocol => ?_
  simp only [decodeArg, hnone]
  exact ⟨_, rfl⟩

/-- `auth_handler` works on the values of a token exactly when none of them is empty. -/
theorem authHandler_eq_iff (t : ClientToken) :
    (∀ loginAuth getRealOpenid, authHandler crypt loginAuth getRealOpenid (t.text crypt) =
      authorize loginAuth getRealOpenid t) ↔ ∀ s ∈ t.fields, s ≠ [] := by
  constructor
  · intro hall
    by_contra hempty
    push Not at hempty
    obtain ⟨e, he⟩ := decodeArgs_of_eq h hempty
    have heq := hall (fun _ _ _ => .ok (true, none)) (fun _ _ _ => .ok [])
    unfold authHandler at heq
    rw [he] at heq
    cases heq
  · intro ht loginAuth getRealOpenid
    unfold authHandler
    rw [decodeArgs_of_ne h ht]
    rfl

/-- Both tokens are read as they were written exactly when they have no empty field. -/
theorem reads_iff :
    (∀ t : ClientToken,
      (∀ loginAuth getRealOpenid, authHandler crypt loginAuth getRealOpenid (t.text crypt) =
        authorize loginAuth getRealOpenid t) ↔ ∀ s ∈ t.fields, s ≠ []) ∧
    ∀ host port uid secret subid : Field,
      stringSplit (serverToken host port uid secret subid) 36 =
        [host.val, port.val, uid.val, secret.val, subid.val] ↔
      ∀ s ∈ [host.val, port.val, uid.val, secret.val, subid.val], s ≠ [] := by
  refine ⟨authHandler_eq_iff h, fun host port uid secret subid => ?_⟩
  refine stringSplit_eq_iff (by simp) ?_
  simp [host.property, port.property, uid.property, secret.property, subid.property]

end Reading

theorem base64Crypt_base64 : base64Crypt.Base64 where
  decode_encode := Lib.Base64.decode_encode
  noDollar := Lib.Base64.notMem_encode (by decide) (by decide)
  encode_eq_nil := fun _ => Lib.Base64.encode_eq_nil

/-- A client without user data, and one with. -/
def noUserData : ClientToken := ⟨[49], [50], [49], [49], [119, 115], []⟩

def withUserData : ClientToken := { noUserData with userData := [120] }

theorem reads_iff_withUserData :
    (∀ loginAuth getRealOpenid, authHandler base64Crypt loginAuth getRealOpenid
        (withUserData.text base64Crypt) = authorize loginAuth getRealOpenid withUserData) ∧
      stringSplit (serverToken [104] [49] [117] [97] [50]) 36 = [[104], [49], [117], [97], [50]] :=
  ⟨((reads_iff base64Crypt_base64).1 withUserData).mpr (by decide),
    ((reads_iff base64Crypt_base64).2 ⟨[104], by decide⟩ ⟨[49], by decide⟩ ⟨[117], by decide⟩
      ⟨[97], by decide⟩ ⟨[50], by decide⟩).mpr (by decide)⟩

/-- The token without user data raises, whatever `login_auth` accepts. -/
theorem not_reads_noUserData : ¬ ∀ t : ClientToken, ∀ loginAuth getRealOpenid,
    authHandler base64Crypt loginAuth getRealOpenid (t.text base64Crypt) =
      authorize loginAuth getRealOpenid t := fun hall =>
  (authHandler_eq_iff base64Crypt_base64 noUserData).mp (hall noUserData) [] (by decide) rfl

end AntServer.Login.LoginServer
