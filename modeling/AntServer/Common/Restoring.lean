/-
# AntServer.Common.Restoring — what is stored is what restores a hash

An answer to `HGETALL` is an array of bulk strings, and what the backup stores for it is the array of
`HMSET`, the key, and the same strings (`answer_array`), whatever characters they are made of. `L` sends
that text. The key is found in the text of the command, as it is on its last line (`keyOf_loadCommand`), if
it is not empty and has no white space. For another key the pattern matches nothing, `#key` raises an error
behind `pop`, and nothing is stored.
-/
import AntServer.Common.Redisbackup

namespace AntServer.Common.Redisbackup

open Lib Lib.BulkStrings

/-! ## The key of a command -/

/-- What is behind the last line feed of a text. -/
theorem behind_last {X Y a b : Text} (h : X ++ '\n' :: a = Y ++ '\n' :: b) (ha : '\n' ∉ a)
    (hb : '\n' ∉ b) : X = Y ∧ a = b := by
  rcases List.append_eq_append_iff.mp h with ⟨c, rfl, hc⟩ | ⟨c, rfl, hc⟩
  · cases c with
    | nil => exact ⟨(List.append_nil X).symm, (List.cons.inj hc).2⟩
    | cons d c =>
      obtain ⟨rfl, rfl⟩ := List.cons.inj hc
      exact absurd (List.mem_append_right c List.mem_cons_self) ha
  · cases c with
    | nil => exact ⟨List.append_nil Y, (List.cons.inj hc).2.symm⟩
    | cons d c =>
      obtain ⟨rfl, rfl⟩ := List.cons.inj hc
      exact absurd (List.mem_append_right c List.mem_cons_self) hb

/-- The beginning of the command that `S` sends. -/
def loadPrefix (key : Text) : Text := "*2\r\n$7\r\nHGETALL\r\n$".toList ++ numeral key.length ++ ['\r']

theorem loadCommand_eq (key : Text) : loadCommand key = (loadPrefix key ++ '\n' :: key) ++ crlf := by
  unfold loadCommand loadPrefix crlf
  simp only [List.append_assoc, List.cons_append, List.nil_append]

/-- The text of a command without its line end. -/
theorem take_crlf (body : Text) : (body ++ crlf).take ((body ++ crlf).length - 2) = body := by
  have hlen : (body ++ crlf).length - 2 = body.length := by
    rw [List.length_append]
    rfl
  rw [hlen, List.take_left]

/-- The key that is found in the command of `S` is the key of `S`. -/
theorem eq_of_keyOf {key key' : Text} (hkey : '\n' ∉ key) (h : keyOf (loadCommand key) = some key') :
    key' = key := by
  unfold keyOf at h
  rw [loadCommand_eq, take_crlf] at h
  generalize hrun : ((loadPrefix key ++ '\n' :: key).reverse.takeWhile fun c =>
    !LuaNumber.isSpace c).reverse = run at h
  simp only [hrun] at h
  split at h
  · rename_i hall
    obtain rfl := Option.some.inj h
    have hsuffix : run <:+ loadPrefix key ++ '\n' :: key := by
      rw [← hrun, ← List.reverse_prefix, List.reverse_reverse]
      exact List.takeWhile_prefix _
    obtain ⟨p, hp⟩ := hsuffix
    have hfree : '\n' ∉ run := by
      rw [← hrun, List.mem_reverse]
      intro hm
      have := List.mem_takeWhile_imp hm
      revert this
      decide
    have htake : (loadPrefix key ++ '\n' :: key).take ((loadPrefix key ++ '\n' :: key).length - run.length) =
        p := by
      rw [← hp, List.length_append, Nat.add_sub_cancel, List.take_left]
    obtain ⟨q, hq⟩ := hall.2.2
    rw [htake] at hq
    -- both keys are what is behind the last line feed
    refine (behind_last (X := q ++ ['\r']) (Y := loadPrefix key) ?_ hfree hkey).2
    rw [← hp, ← hq]
    simp [crlf]
  · cases h

/-- A key without a space is found in the command of `S`. -/
theorem keyOf_loadCommand {key : Text} (hne : key ≠ [])
    (hspace : ∀ c ∈ key, LuaNumber.isSpace c = false) : keyOf (loadCommand key) = some key := by
  have hrun : ((loadPrefix key ++ '\n' :: key).reverse.takeWhile fun c =>
      !LuaNumber.isSpace c).reverse = key := by
    rw [List.reverse_append, List.reverse_cons, List.append_assoc, List.takeWhile_append_of_pos]
    · rw [List.singleton_append, List.takeWhile_cons_of_neg (by decide), List.append_nil,
        List.reverse_reverse]
    · intro c hc
      rw [hspace c (List.mem_reverse.mp hc)]
      rfl
  have htake : (loadPrefix key ++ '\n' :: key).take ((loadPrefix key ++ '\n' :: key).length - key.length) =
      loadPrefix key ++ ['\n'] := by
    have hlen : (loadPrefix key ++ '\n' :: key).length - key.length = (loadPrefix key ++ ['\n']).length := by
      simp only [List.length_append, List.length_cons, List.length_nil]
      omega
    have hsplit : loadPrefix key ++ '\n' :: key = (loadPrefix key ++ ['\n']) ++ key := by simp
    rw [hlen, hsplit, List.take_left]
  unfold keyOf
  rw [loadCommand_eq, take_crlf]
  simp only [hrun, htake]
  refine if_pos ⟨List.suffix_append _ crlf, hne, ?_⟩
  unfold loadPrefix
  rw [List.append_assoc]
  exact List.suffix_append _ crlf

/-! ## The text of an answer -/

/-- What `tostring` writes for a length, `tonumber` reads behind the sign of a bulk string. -/
theorem tonumber_numeral {n : Nat} (h : n < 2 ^ 63) : LuaNumber.tonumber (numeral n) = some (.int n) :=
  LuaNumber.tonumber_toDigits h

/-- The loop of `read_response` keeps the text of the bulk strings. -/
theorem readBulks_writeAll {items : List Text} (h : ∀ s ∈ items, s.length < 2 ^ 63) (rest : Text) :
    readBulks items.length (bulk.writeAll items ++ rest) = some (bulk.writeAll items, rest) := by
  induction items with
  | nil => rfl
  | cons s items ih =>
    have hs := h s List.mem_cons_self
    have htext : bulk.writeAll (s :: items) ++ rest =
        '$' :: numeral s.length ++ crlf ++ ((s ++ crlf) ++ (bulk.writeAll items ++ rest)) := by
      rw [Framing.writeAll_cons]
      show writeBulk s ++ _ ++ _ = _
      unfold writeBulk
      simp only [List.append_assoc]
    have hlen : (s.length : Int).toNat + 2 = (s ++ crlf).length := by
      rw [List.length_append]
      rfl
    rw [htext, List.length_cons, readBulks, line_numeral '$' (by decide)]
    simp only [Option.bind_some, List.drop_one, List.tail_cons, tonumber_numeral hs]
    show (if 0 ≤ (s.length : Int) then if (s.length : Int).toNat + 2 ≤ _ then _ else none else _) = _
    have hle : (s ++ crlf).length ≤ ((s ++ crlf) ++ (bulk.writeAll items ++ rest)).length :=
      (List.prefix_append _ _).length_le
    rw [if_pos (Int.natCast_nonneg _), hlen, List.drop_left, List.take_left, if_pos hle,
      ih fun x hx => h x (List.mem_cons_of_mem s hx), Framing.writeAll_cons]
    show some (_, rest) = some (writeBulk s ++ bulk.writeAll items, rest)
    unfold writeBulk
    simp only [List.append_assoc]

/-- `read_response` of an array. -/
theorem readResponse_array {items : List Text} (hne : items ≠ []) (hcount : items.length < 2 ^ 63)
    (h : ∀ s ∈ items, s.length < 2 ^ 63) (rest : Text) :
    readResponse ('*' :: numeral items.length) (bulk.writeAll items ++ rest) =
      some (.number items.length (bulk.writeAll items), rest) := by
  have hpos : ¬ (items.length : Int) ≤ 0 := by
    have := List.length_pos_of_ne_nil hne
    omega
  unfold readResponse
  simp only [tonumber_numeral hcount]
  show (if (items.length : Int) ≤ 0 then _ else (readBulks (items.length : Int).toNat _).map _) = _
  rw [if_neg hpos, Int.toNat_natCast, readBulks_writeAll h]
  rfl

/-- What is stored is an array again. -/
theorem hmset_eq (key : Text) (items : List Text) :
    hmset items.length key (bulk.writeAll items) = array ("HMSET".toList :: key :: items) := by
  unfold hmset array
  rw [Framing.writeAll_cons, Framing.writeAll_cons]
  show _ = '*' :: numeral (items.length + 1 + 1) ++ crlf ++
    (writeBulk "HMSET".toList ++ (writeBulk key ++ bulk.writeAll items))
  have hn : LuaNumber.integerText ((items.length : Int) + 2) = numeral (items.length + 1 + 1) := rfl
  have hcmd : writeBulk "HMSET".toList = "$5\r\nHMSET\r\n".toList := by decide
  rw [hn, hcmd]
  unfold writeBulk
  have hstart : "\r\n$5\r\nHMSET\r\n$".toList = crlf ++ ("$5\r\nHMSET\r\n".toList ++ ['$']) := by decide
  rw [hstart]
  simp only [List.append_assoc, List.cons_append, List.nil_append]

/-- An answer with the hash of a key, read for the command that asked for it, is stored as the command that
sets the same fields to the same values, and `L` sends this command. The key is not empty and has no white
space: `dispatch_one` finds no other key in the command. -/
theorem answer_array {s : Backup} {asked key : Text} {wire items : List Text}
    (hconn : s.conn = .up (asked :: wire)) (hpop : s.dbcmd.pop.1 = some (loadCommand key)) (hkey : key ≠ [])
    (hspace : ∀ c ∈ key, LuaNumber.isSpace c = false) (hne : items ≠ []) (hcount : items.length < 2 ^ 63)
    (hitems : ∀ x ∈ items, x.length < 2 ^ 63) : ∃ s', s.step (.answer (array items)) = some s' ∧
      s'.conn = .up wire ∧ s'.db = s.db.set key (array ("HMSET".toList :: key :: items)) ∧
      s'.step (.L key) = some (s'.send (array ("HMSET".toList :: key :: items))) ∧
      readArray (array ("HMSET".toList :: key :: items)) = some ("HMSET".toList :: key :: items, []) := by
  have hline : line (array items) = some ('*' :: numeral items.length, bulk.writeAll items) :=
    line_numeral '*' (by decide) _ _
  have hresponse := readResponse_array hne hcount hitems []
  rw [List.append_nil] at hresponse
  have hpos : (0 : Int) < items.length := by
    have := List.length_pos_of_ne_nil hne
    omega
  have hcmd : s.dbcmd.pop.1.bind keyOf = some key := by
    rw [hpop]
    exact keyOf_loadCommand hkey hspace
  have hdispatch : s.dispatchOne asked (array items) = ({ s with
      dbcmd := s.dbcmd.pop.2
      db := s.db.set key (array ("HMSET".toList :: key :: items))
      log := ⟨asked, s.dbcmd.pop.1, some (key, array ("HMSET".toList :: key :: items))⟩ :: s.log },
      some []) := by
    have hok : ¬ '*' :: numeral items.length = "+OK".toList := fun h => absurd (List.cons.inj h).1 (by decide)
    rw [Backup.dispatchOne, hline]
    simp only [if_neg hok, hresponse]
    show (if (0 : Int) < items.length then _ else _) = _
    have hsave : s.save asked items.length (bulk.writeAll items) = ({ s with
        dbcmd := s.dbcmd.pop.2
        db := s.db.set key (array ("HMSET".toList :: key :: items))
        log := ⟨asked, s.dbcmd.pop.1, some (key, array ("HMSET".toList :: key :: items))⟩ :: s.log },
        true) := by
      rw [← hmset_eq, Backup.save, hcmd]
    rw [if_pos hpos, hsave]
    rfl
  have hstep : s.step (.answer (array items)) = some { s with
      dbcmd := s.dbcmd.pop.2
      db := s.db.set key (array ("HMSET".toList :: key :: items))
      conn := .up wire
      log := ⟨asked, s.dbcmd.pop.1, some (key, array ("HMSET".toList :: key :: items))⟩ :: s.log } := by
    rw [Backup.step, hconn]
    simp only [hdispatch]
  refine ⟨_, hstep, rfl, rfl, ?_, ?_⟩
  · have hget : (s.db.set key (array ("HMSET".toList :: key :: items))).get key =
        some (array ("HMSET".toList :: key :: items)) := Table.get_set_self _ _ _
    rw [Backup.step, hget]
  · have hread := readArray_array ("HMSET".toList :: key :: items) []
    rwa [List.append_nil] at hread

/-- With the command of the key `k` at the head of the queue, and the hash of one field. -/
theorem answer_array_k : ∃ s', Backup.step ⟨Dbcmd.initial.push (loadCommand ['k']), .empty,
      .up [loadCommand ['k']], [loadCommand ['k']], []⟩ (.answer (array [['f'], ['v']])) = some s' ∧
      s'.conn = .up [] ∧
      s'.db = Table.empty.set ['k'] (array ["HMSET".toList, ['k'], ['f'], ['v']]) ∧
      s'.step (.L ['k']) = some (s'.send (array ["HMSET".toList, ['k'], ['f'], ['v']])) ∧
      readArray (array ["HMSET".toList, ['k'], ['f'], ['v']]) =
        some (["HMSET".toList, ['k'], ['f'], ['v']], []) :=
  have hspace : ∀ c ∈ ['k'], LuaNumber.isSpace c = false := by
    intro c hc
    rw [List.mem_singleton.mp hc]
    rfl
  answer_array rfl rfl (by decide) hspace (by decide) (by decide) (by decide)

end AntServer.Common.Redisbackup
