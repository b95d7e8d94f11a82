/-
# AntServer.WebSocket.Headers — the headers of the upgrade request

`parse_httpheader` searches for the ends of lines and takes the pattern `([%a-]+)%s*: (.*)` to each line
behind the first one. The pattern is not anchored, and knows letters and hyphens only and one space behind
the colon. So `Name:value` is lost, of `Name:  value` a space stays with the value, and `X_Upgrade: value`
sets the header `upgrade`, as such text does in a malformed line or in the value of a header that is missed.

`valueOf` is the value of the last header line of a name, as HTTP has them. `parse_httpheader` gives it for
every name, for the request and for each of its lines alone, exactly when each header line has a name of
letters and hyphens and one space before its value, and no other line has a letter or a hyphen, spaces or
none, a colon and a space (`exact_iff`).
-/
import Mathlib.Data.List.TakeWhile
import AntServer.WebSocket.GateserverWs
import AntServer.WebSocket.Resumed

namespace AntServer.WebSocket

open Lib (Table)

/-! ## The search for the lines -/

/-- `string.find(httpStr, "\r\n", init)`, an index from 1. -/
def findCrlf (httpStr : Bytes) (init : Nat) : Option Nat :=
  (websocketStrnpos crlf (httpStr.drop (init - 1))).map fun n => init + n

/-- `string.sub(s, i, j)` -/
def sub (s : Bytes) (i j : Nat) : Bytes := (s.drop (i - 1)).take (j + 1 - i)

/-- What a line does to `header`. -/
def addLine (header : Table Bytes Bytes) (line : Bytes) : Table Bytes Bytes :=
  match matchHeader line with
  | none => header
  | some (key, value) => header.set (lower key) value

/-- The loop of `parse_httpheader`, with a bound on its rounds. -/
def parseLoop (httpStr : Bytes) : Nat → Option Nat → Table Bytes Bytes → Option (Table Bytes Bytes)
  | 0, _, _ => none
  | _ + 1, none, header => some header
  | n + 1, some i, header =>
    let start := i + 2
    match findCrlf httpStr start with
    | none => parseLoop httpStr n none header
    | some i => parseLoop httpStr n (some i) (addLine header (sub httpStr start (i - 1)))

/-- `parse_httpheader` returns: the loop ends, with this table. -/
def Returns (httpStr : Bytes) (header : Table Bytes Bytes) : Prop :=
  ∃ n, ∀ m, n ≤ m → parseLoop httpStr m (findCrlf httpStr 1) .empty = some header

theorem parseHttpheader_eq (httpStr : Bytes) :
    parseHttpheader httpStr = (lines httpStr).tail.foldl addLine .empty := rfl

/-- The first line ends where `"\r\n"` is found first. -/
theorem lines_eq (s : Bytes) :
    lines s =
      match websocketStrnpos crlf s with
      | none => []
      | some n => s.take n :: lines (s.drop (n + 2)) := by
  induction s with
  | nil => simp [lines, websocketStrnpos]
  | cons c rest ih =>
    rw [lines, websocketStrnpos]
    by_cases hcrlf : crlf.isPrefixOf (c :: rest) = true
    · rw [if_pos hcrlf, if_pos hcrlf]
      rfl
    · rw [if_neg hcrlf, if_neg hcrlf, ih]
      rcases websocketStrnpos crlf rest with - | n
      · rfl
      · rfl

/-- The loop on the text behind a line end: what is there in lines is added, line by line. -/
theorem parseLoop_eq (httpStr : Bytes) (n i : Nat) (header : Table Bytes Bytes)
    (hn : (httpStr.drop (i + 1)).length + 2 ≤ n) :
    parseLoop httpStr n (some i) header
      = some ((lines (httpStr.drop (i + 1))).foldl addLine header) := by
  induction n generalizing i header with
  | zero => omega
  | succ n ih =>
    have hstart : i + 2 - 1 = i + 1 := by omega
    rw [parseLoop, lines_eq, findCrlf, hstart]
    rcases hfind : websocketStrnpos crlf (httpStr.drop (i + 1)) with - | p
    · -- nothing is found, and the next round ends the loop
      obtain ⟨n, rfl⟩ : ∃ m, n = m + 1 := ⟨n - 1, by omega⟩
      rfl
    · have hline : sub httpStr (i + 2) (i + 2 + p - 1) = (httpStr.drop (i + 1)).take p := by
        rw [sub, hstart, show i + 2 + p - 1 + 1 - (i + 2) = p by omega]
      have hrest : httpStr.drop (i + 2 + p + 1) = (httpStr.drop (i + 1)).drop (p + 2) := by
        rw [List.drop_drop, show i + 1 + (p + 2) = i + 2 + p + 1 by omega]
      have hle : p + crlf.length ≤ (httpStr.drop (i + 1)).length := websocketStrnpos_le hfind
      show parseLoop httpStr n (some (i + 2 + p)) (addLine header _) = _
      rw [ih, hline, hrest]
      · rfl
      · rw [hrest, List.length_drop]
        simp only [crlf, List.length_cons, List.length_nil] at hle
        omega

/-- `parse_httpheader` terminates, with the table of the lines behind the first one. -/
theorem returns_iff (httpStr : Bytes) (header : Table Bytes Bytes) :
    Returns httpStr header ↔ header = parseHttpheader httpStr := by
  have hreturns : Returns httpStr (parseHttpheader httpStr) := by
    refine ⟨httpStr.length + 2, fun m hm => ?_⟩
    rw [parseHttpheader_eq, lines_eq, findCrlf, Nat.sub_self, List.drop_zero]
    rcases websocketStrnpos crlf httpStr with - | p
    · obtain ⟨m, rfl⟩ : ∃ k, m = k + 1 := ⟨m - 1, by omega⟩
      rfl
    · show parseLoop httpStr m (some (1 + p)) .empty = _
      rw [parseLoop_eq, show 1 + p + 1 = p + 2 by omega]
      · rfl
      · rw [List.length_drop]
        omega
  constructor
  · rintro ⟨n, hn⟩
    obtain ⟨n', hn'⟩ := hreturns
    have h := hn (max n n') (le_max_left n n')
    rw [hn' (max n n') (le_max_right n n')] at h
    exact (Option.some.inj h).symm
  · rintro rfl
    exact hreturns

/-! ## Header lines -/

/-- The bytes of an HTTP token: letters, digits, and the characters ``!#$%&'*+-.^_`|~``. -/
def isToken (c : UInt8) : Bool :=
  (65 ≤ c && c ≤ 90) || (97 ≤ c && c ≤ 122) || (48 ≤ c && c ≤ 57) ||
    [33, 35, 36, 37, 38, 39, 42, 43, 45, 46, 94, 95, 96, 124, 126].contains c

/-- A space or a tab. -/
def isBlank (c : UInt8) : Bool := c = 32 || c = 9

/-- A header line: a name, a colon, blanks and a value. -/
structure HeaderLine where
  name : Bytes
  blanks : Bytes
  value : Bytes
  name_ne : name ≠ []
  token : ∀ c ∈ name, isToken c = true
  blank : ∀ c ∈ blanks, isBlank c = true
  /-- the blanks are all those before the value -/
  trimmed : ∀ c ∈ value.head?, isBlank c = false

def HeaderLine.text (h : HeaderLine) : Bytes := h.name ++ 58 :: (h.blanks ++ h.value)

/-- The header line a line is, if it is one: its name is what stands before the first colon. -/
def readLine (line : Bytes) : Option HeaderLine :=
  let name := line.takeWhile isToken
  match line.dropWhile isToken with
  | 58 :: rest =>
    if hname : name ≠ [] then
      some
        { name
          blanks := rest.takeWhile isBlank
          value := rest.dropWhile isBlank
          name_ne := hname
          token := fun c hc => List.mem_takeWhile_imp hc
          blank := fun c hc => List.mem_takeWhile_imp hc
          trimmed := by
            intro c hc
            have h := List.head?_dropWhile_not isBlank rest
            rw [Option.mem_def.mp hc] at h
            simpa using h }
    else none
  | _ => none

/-- What is read is the line. -/
theorem text_readLine {line : Bytes} {h : HeaderLine} (hread : readLine line = some h) :
    h.text = line := by
  unfold readLine at hread
  dsimp only at hread
  split at hread
  · rename_i rest hdrop
    split_ifs at hread with hname
    rw [← Option.some.inj hread, HeaderLine.text, List.takeWhile_append_dropWhile, ← hdrop,
      List.takeWhile_append_dropWhile]
  · simp at hread

/-- The header lines of a request. -/
def headerLines (text : Bytes) : List HeaderLine := (lines text).tail.filterMap readLine

/-- The value of the last header line of a name. -/
def valueOf (text : Bytes) (name : Bytes) : Option Bytes :=
  ((headerLines text).reverse.find? fun h => lower h.name = name).map HeaderLine.value

/-! ## What the pattern finds -/

theorem not_isKey_of_isSpace {c : UInt8} (h : isSpace c = true) : isKey c = false := by
  have hle : c.toNat ≤ 32 := by
    simp only [isSpace, Bool.or_eq_true, Bool.and_eq_true, decide_eq_true_eq, UInt8.le_iff_toNat_le]
      at h
    rcases h with h | rfl
    · exact h.2.trans (by decide)
    · decide
  have hne : c ≠ 45 := by
    rintro rfl
    simp at hle
  simp only [isKey, Bool.or_eq_false_iff, Bool.and_eq_false_iff, decide_eq_false_iff_not,
    UInt8.le_iff_toNat_le, UInt8.reduceToNat]
  exact ⟨⟨.inl (by omega), .inl (by omega)⟩, hne⟩

/-- The pattern matches only a run of key characters, spaces, a colon and one space, and the value is all
behind them. -/
theorem matchHeader_some {s key value : Bytes} (h : matchHeader s = some (key, value)) :
    ∃ before spaces, s = before ++ (key ++ (spaces ++ 58 :: 32 :: value)) ∧ key ≠ [] ∧
      (∀ c ∈ key, isKey c = true) ∧ ∀ c ∈ spaces, isSpace c = true := by
  induction s with
  | nil => simp [matchHeader] at h
  | cons c rest ih =>
    have hlater (h : matchHeader rest = some (key, value)) :
        ∃ before spaces, c :: rest = before ++ (key ++ (spaces ++ 58 :: 32 :: value)) ∧ key ≠ [] ∧
          (∀ c ∈ key, isKey c = true) ∧ ∀ c ∈ spaces, isSpace c = true := by
      obtain ⟨before, spaces, hrest, hkey⟩ := ih h
      exact ⟨c :: before, spaces, by rw [hrest, List.cons_append], hkey⟩
    rw [matchHeader] at h
    split_ifs at h with hc
    · split at h
      · rename_i value' hvalue
        simp only [Option.some.injEq, Prod.mk.injEq] at h
        obtain ⟨rfl, rfl⟩ := h
        refine ⟨[], ((c :: rest).dropWhile isKey).takeWhile isSpace, ?_, ?_, ?_, ?_⟩
        · rw [List.nil_append, ← hvalue, List.takeWhile_append_dropWhile,
            List.takeWhile_append_dropWhile]
        · rw [List.takeWhile_cons_of_pos hc]
          exact List.cons_ne_nil _ _
        · exact fun _ h => List.mem_takeWhile_imp h
        · exact fun _ h => List.mem_takeWhile_imp h
      · exact hlater h
    · exact hlater h

/-- A key at the start of the string is found whole. -/
theorem matchHeader_key {key spaces : Bytes} (value : Bytes) (hne : key ≠ [])
    (hkey : ∀ c ∈ key, isKey c = true) (hspaces : ∀ c ∈ spaces, isSpace c = true) :
    matchHeader (key ++ (spaces ++ 58 :: 32 :: value)) = some (key, value) := by
  -- the run of key characters ends at the first space, or at the colon
  have hstop : ¬ isKey ((spaces ++ 58 :: 32 :: value).head (by simp)) = true := by
    rcases spaces with - | ⟨b, spaces⟩
    · simp [isKey]
    · simp [not_isKey_of_isSpace (hspaces b List.mem_cons_self)]
  have htake : (spaces ++ 58 :: 32 :: value).takeWhile isKey = [] := by
    rw [List.takeWhile_eq_nil_iff]
    intro hlen
    rwa [List.get_eq_getElem, List.getElem_zero]
  have hdrop : (spaces ++ 58 :: 32 :: value).dropWhile isKey = spaces ++ 58 :: 32 :: value := by
    have happ := @List.takeWhile_append_dropWhile _ isKey (spaces ++ 58 :: 32 :: value)
    rwa [htake] at happ
  have hcolon : (58 :: 32 :: value).dropWhile isSpace = 58 :: 32 :: value :=
    List.dropWhile_cons_of_neg (by decide)
  obtain ⟨c, key', rfl⟩ := List.exists_cons_of_ne_nil hne
  rw [List.cons_append, matchHeader, if_pos (hkey c List.mem_cons_self), ← List.cons_append,
    List.dropWhile_append_of_pos hkey, List.takeWhile_append_of_pos hkey, htake, hdrop,
    List.dropWhile_append_of_pos hspaces, hcolon, List.append_nil]
  rfl

/-- What can be taken for a header: a key character, spaces or none, a colon and a space. -/
def Marked (line : Bytes) : Prop :=
  ∃ before c spaces value, line = before ++ c :: (spaces ++ 58 :: 32 :: value) ∧
    isKey c = true ∧ ∀ c ∈ spaces, isSpace c = true

theorem matchHeader_eq_none_iff (line : Bytes) : matchHeader line = none ↔ ¬ Marked line := by
  constructor
  · rintro hnone ⟨before, c, spaces, value, rfl, hc, hspaces⟩
    -- along what stands before the key: the pattern matches there, or later
    induction before with
    | nil =>
      have hfound := @matchHeader_key [c] spaces value (List.cons_ne_nil c [])
        (fun b hb => by rwa [List.mem_singleton.mp hb]) hspaces
      rw [List.singleton_append] at hfound
      rw [List.nil_append, hfound] at hnone
      simp at hnone
    | cons b before ih =>
      apply ih
      rw [List.cons_append, matchHeader] at hnone
      split_ifs at hnone with hb
      · split at hnone
        · simp at hnone
        · exact hnone
      · exact hnone
  · intro hmarked
    rcases hmatch : matchHeader line with - | ⟨key, value⟩
    · rfl
    · obtain ⟨before, spaces, hline, hne, hkey, hspaces⟩ := matchHeader_some hmatch
      refine absurd ⟨before ++ key.dropLast, key.getLast hne, spaces, value, ?_, ?_, hspaces⟩ hmarked
      · rw [hline, List.append_assoc, List.append_cons key.dropLast, List.dropLast_append_getLast]
      · exact hkey _ (List.getLast_mem hne)

/-! ## When a line defines its own header -/

/-- A header line whose name is of letters and hyphens, with one space before its value; or another line
that cannot be taken for one. -/
def LineFits (line : Bytes) : Prop :=
  match readLine line with
  | some h => (∀ c ∈ h.name, isKey c = true) ∧ h.blanks = [32]
  | none => ¬ Marked line

theorem not_mem_colon_name (h : HeaderLine) : (58 : UInt8) ∉ h.name := by
  intro hmem
  have := h.token 58 hmem
  simp [isToken] at this

theorem not_mem_colon_blanks (h : HeaderLine) : (58 : UInt8) ∉ h.blanks := by
  intro hmem
  have := h.blank 58 hmem
  simp [isBlank] at this

/-- The colon the pattern found is the one behind the name. -/
theorem fits_of_matchHeader {h : HeaderLine} {key : Bytes}
    (hmatch : matchHeader h.text = some (key, h.value)) (hlen : key.length = h.name.length) :
    (∀ c ∈ h.name, isKey c = true) ∧ h.blanks = [32] := by
  obtain ⟨before, spaces, htext, -, hkey, -⟩ := matchHeader_some hmatch
  -- before the value there is one colon on either side
  have hparts : h.name ++ 58 :: h.blanks = (before ++ (key ++ spaces)) ++ 58 :: [32] := by
    have : (h.name ++ 58 :: h.blanks) ++ h.value
        = ((before ++ (key ++ spaces)) ++ 58 :: [32]) ++ h.value := by
      simpa [HeaderLine.text] using htext
    exact List.append_cancel_right this
  obtain ⟨hname, -, hblanks⟩ := (List.append_cons_inj_of_notMem (not_mem_colon_name h)
    (not_mem_colon_blanks h)).mp hparts
  refine ⟨?_, hblanks⟩
  have hbefore : before = [] := by
    have := congrArg List.length hname
    simp only [List.length_append] at this
    exact List.eq_nil_of_length_eq_zero (by omega)
  have hspaces : spaces = [] := by
    have := congrArg List.length hname
    simp only [List.length_append] at this
    exact List.eq_nil_of_length_eq_zero (by omega)
  rw [hname, hbefore, hspaces, List.append_nil, List.nil_append]
  exact hkey

/-- The header of a line alone: what it gives when asked for `name`. -/
def lineValue (line name : Bytes) : Option Bytes :=
  ((readLine line).filter fun h => lower h.name = name).map HeaderLine.value

/-- A line that fits adds its own header to the table, and nothing else. -/
theorem get_addLine {line : Bytes} (hfits : LineFits line) (header : Table Bytes Bytes) (name : Bytes) :
    (addLine header line).get name = (lineValue line name).or (header.get name) := by
  unfold LineFits at hfits
  rcases hread : readLine line with - | h
  · rw [hread] at hfits
    rw [addLine, (matchHeader_eq_none_iff line).mpr hfits, lineValue, hread]
    rfl
  · rw [hread] at hfits
    obtain ⟨hkey, hblanks⟩ := hfits
    have hmatch : matchHeader line = some (h.name, h.value) := by
      have hline : line = h.name ++ ([] ++ 58 :: 32 :: h.value) := by
        rw [← text_readLine hread, HeaderLine.text, hblanks]
        rfl
      rw [hline]
      exact matchHeader_key h.value h.name_ne hkey (fun c hc => by simp at hc)
    rw [addLine, hmatch, lineValue, hread, Option.filter_some]
    show (header.set (lower h.name) h.value).get name = _
    by_cases hname : lower h.name = name
    · rw [← hname, Table.get_set_self]
      simp
    · rw [Table.get_set_ne _ _ (Ne.symm hname)]
      simp [hname]

/-- A line fits exactly when, added to an empty table, it gives its own header. -/
theorem lineFits_iff (line : Bytes) :
    LineFits line ↔ ∀ name, (addLine .empty line).get name = lineValue line name := by
  constructor
  · intro hfits name
    rw [get_addLine hfits, Table.get_empty, Option.or_none]
  · intro hvalue
    unfold LineFits
    rcases hread : readLine line with - | h
    · -- the table stays empty, so nothing was found
      rcases hmatch : matchHeader line with - | ⟨key, value⟩
      · exact (matchHeader_eq_none_iff line).mp hmatch
      · have := hvalue (lower key)
        rw [addLine, hmatch, lineValue, hread] at this
        simp at this
    · have hget := hvalue (lower h.name)
      rw [lineValue, hread, Option.filter_some, if_pos (by simp)] at hget
      rcases hmatch : matchHeader line with - | ⟨key, value⟩
      · rw [addLine, hmatch] at hget
        simp at hget
      · -- it was found under the name of the line and with its value
        rw [addLine, hmatch] at hget
        simp only [Table.get_set, Table.get_empty, Option.map_some] at hget
        split_ifs at hget with hname
        simp only [Option.some.injEq] at hget
        rw [hget, ← text_readLine hread] at hmatch
        refine fits_of_matchHeader hmatch ?_
        have hlen := congrArg List.length hname
        simp only [lower, List.length_map] at hlen
        exact hlen.symm

/-! ## Requests -/

/-- The text of a request of these lines. -/
def requestText (ls : List Bytes) : Bytes := ls.flatMap fun line => line ++ crlf

/-- `parse_httpheader` terminates, with the value of its last line under each name in lower case. -/
def Parses (text : Bytes) : Prop :=
  ∃ header, Returns text header ∧ ∀ name, header.get name = valueOf text name

theorem parses_iff (text : Bytes) :
    Parses text ↔ ∀ name, (parseHttpheader text).get name = valueOf text name := by
  simp only [Parses, returns_iff, exists_eq_left]

theorem valueOf_eq (text name : Bytes) :
    valueOf text name
      = (lines text).tail.foldl (fun value line => (lineValue line name).or value) none := by
  rw [valueOf, headerLines]
  induction (lines text).tail using List.reverseRecOn with
  | nil => rfl
  | append_singleton ls line ih =>
    rw [List.foldl_append, ← ih, List.filterMap_append, List.reverse_append, List.find?_append]
    show _ = (lineValue line name).or _
    unfold lineValue
    rcases hread : readLine line with - | h
    · simp [hread]
    · by_cases hname : lower h.name = name
      · simp [hread, hname, Option.filter_some]
      · simp [hread, hname, Option.filter_some]

/-- A request whose lines fit is parsed as it should be. -/
theorem parses_of_fits {text : Bytes} (hfits : ∀ line ∈ (lines text).tail, LineFits line) :
    Parses text := by
  rw [parses_iff]
  intro name
  rw [parseHttpheader_eq, valueOf_eq]
  generalize (lines text).tail = ls at hfits ⊢
  induction ls using List.reverseRecOn with
  | nil => exact Table.get_empty name
  | append_singleton ls line ih =>
    rw [List.foldl_append, List.foldl_append]
    show (addLine _ line).get name = (lineValue line name).or _
    rw [get_addLine (hfits line (by simp)), ih fun l hl => hfits l (by simp [hl])]

theorem websocketStrnpos_take {s : Bytes} {n : Nat} (h : websocketStrnpos crlf s = some n) :
    websocketStrnpos crlf (s.take n ++ crlf) = some n := by
  induction s generalizing n with
  | nil => simp [websocketStrnpos] at h
  | cons c rest ih =>
    rw [websocketStrnpos] at h
    split_ifs at h with hc
    · simp only [Option.some.injEq] at h
      subst h
      rfl
    · obtain ⟨k, hk, rfl⟩ := Option.map_eq_some_iff.mp h
      rw [List.take_succ_cons, List.cons_append, websocketStrnpos, ih hk, if_neg]
      · rfl
      · -- `"\r\n"` at the front would be there in `s`, or a line feed at its own place
        intro hfront
        apply hc
        rcases k with - | k
        · simp [crlf, List.isPrefixOf] at hfront
        · rcases rest with - | ⟨d, rest⟩
          · simp [websocketStrnpos] at hk
          · simpa [crlf, List.isPrefixOf] using hfront

/-- A line ends at the first `"\r\n"` behind its start. -/
theorem websocketStrnpos_line {s line : Bytes} (h : line ∈ lines s) :
    websocketStrnpos crlf (line ++ crlf) = some line.length := by
  induction hlen : s.length using Nat.strong_induction_on generalizing s with
  | _ n ih =>
    rw [lines_eq] at h
    rcases hfind : websocketStrnpos crlf s with - | p
    · simp [hfind] at h
    · rw [hfind] at h
      have hle : p + crlf.length ≤ s.length := websocketStrnpos_le hfind
      simp only [crlf, List.length_cons, List.length_nil] at hle
      rcases List.mem_cons.mp h with rfl | hrest
      · rw [websocketStrnpos_take hfind, List.length_take, Nat.min_eq_left (by omega)]
      · refine ih (s.drop (p + 2)).length ?_ hrest rfl
        rw [List.length_drop]
        omega

theorem lines_requestText {ls : List Bytes}
    (h : ∀ line ∈ ls, websocketStrnpos crlf (line ++ crlf) = some line.length) :
    lines (requestText ls) = ls := by
  induction ls with
  | nil => simp [requestText, lines]
  | cons line ls ih =>
    have hfirst := websocketStrnpos_append (h line List.mem_cons_self) (requestText ls)
    have htext : requestText (line :: ls) = (line ++ crlf) ++ requestText ls := by
      rw [requestText, List.flatMap_cons, requestText]
    have hdrop : ((line ++ crlf) ++ requestText ls).drop (line.length + 2) = requestText ls := by
      rw [List.drop_append_of_le_length (by simp [crlf])]
      simp [crlf]
    rw [lines_eq, htext, hfirst]
    show _ :: lines _ = _
    rw [hdrop, ih fun l hl => h l (List.mem_cons_of_mem line hl), List.append_assoc,
      List.take_left]

/-- The lines of a request can be put into requests of their own. -/
theorem lines_requestText_of_mem {text : Bytes} {ls : List Bytes} (h : ∀ line ∈ ls, line ∈ lines text) :
    lines (requestText ls) = ls :=
  lines_requestText fun line hline => websocketStrnpos_line (h line hline)

/-- The upgrade, connection, version and key headers of a request, in their last lines. -/
structure Carries (text : Bytes) : Prop where
  upgrade : (valueOf text (bytes "upgrade")).map lower = some (bytes "websocket")
  connection : ∃ value ∈ valueOf text (bytes "connection"),
    (websocketStrnpos (bytes "upgrade") (lower value)).isSome = true
  version : valueOf text (bytes "sec-websocket-version") = some (bytes "13")
  key : (valueOf text (bytes "sec-websocket-key")).isSome = true

/-- The headers of a request are exactly those of its header lines. -/
structure Exact (accept : Bytes → Bytes) (text : Bytes) : Prop where
  parses : Parses text
  /-- so is each line, alone behind the request line -/
  alone : ∀ requestLine ls, lines text = requestLine :: ls →
    ∀ line ∈ ls, Parses (requestText [requestLine, line])
  accepts : ∀ header response, Returns text header →
    checkwebsocketValid accept header = .ok response → Carries text

theorem carries_of_valid {accept : Bytes → Bytes} {text response : Bytes} (hparses : Parses text)
    (hvalid : checkwebsocketValid accept (parseHttpheader text) = .ok response) : Carries text := by
  have hget := (parses_iff text).mp hparses
  unfold checkwebsocketValid at hvalid
  simp only [hget] at hvalid
  split_ifs at hvalid with hupgrade hconnection hversion
  rcases hkey : valueOf text (bytes "sec-websocket-key") with - | key
  · simp [hkey] at hvalid
  · refine ⟨not_not.mp hupgrade, ?_, not_not.mp hversion, by rw [hkey]; rfl⟩
    rcases hvalue : valueOf text (bytes "connection") with - | value
    · simp [hvalue] at hconnection
    · refine ⟨value, rfl, ?_⟩
      simpa [hvalue, Option.isSome_iff_ne_none] using hconnection

/-- The headers a request is checked by are those of its lines, whatever is in the values and in lines that
are none, exactly when each line fits. -/
theorem exact_iff (accept : Bytes → Bytes) (text : Bytes) :
    Exact accept text ↔ ∀ line ∈ (lines text).tail, LineFits line := by
  have htwo : ∀ requestLine ls, lines text = requestLine :: ls → ∀ line ∈ ls,
      lines (requestText [requestLine, line]) = [requestLine, line] := by
    intro requestLine ls hlines line hline
    apply @lines_requestText_of_mem text
    intro l hl
    rw [hlines]
    rcases List.mem_cons.mp hl with rfl | hl
    · exact List.mem_cons_self
    · rw [List.mem_singleton.mp hl]
      exact List.mem_cons_of_mem requestLine hline
  constructor
  · intro hexact line hline
    rcases hlines : lines text with - | ⟨requestLine, ls⟩
    · simp [hlines] at hline
    · rw [hlines, List.tail_cons] at hline
      rw [lineFits_iff]
      intro name
      have hget := (parses_iff _).mp (hexact.alone requestLine ls hlines line hline) name
      rw [parseHttpheader_eq, valueOf_eq, htwo requestLine ls hlines line hline] at hget
      simpa using hget
  · intro hfits
    refine ⟨parses_of_fits hfits, ?_, ?_⟩
    · intro requestLine ls hlines line hline
      apply parses_of_fits
      intro l hl
      rw [htwo requestLine ls hlines line hline, List.tail_cons] at hl
      rw [List.mem_singleton.mp hl]
      apply hfits
      rw [hlines, List.tail_cons]
      exact hline
    · intro header response hreturns hvalid
      rw [(returns_iff text header).mp hreturns] at hvalid
      exact carries_of_valid (parses_of_fits hfits) hvalid

/-- None of the upgrade's headers, but four that end in their names behind an underscore. -/
def underscored : List Bytes :=
  [bytes "GET / HTTP/1.1", bytes "X_Upgrade: websocket", bytes "X_Connection: Upgrade",
    bytes "X_Sec-WebSocket-Version: 13", bytes "X_Sec-WebSocket-Key: dGhl", []]

/-- The header without a blank before its value. -/
def unspaced : List Bytes := [bytes "GET / HTTP/1.1", bytes "Upgrade:websocket", []]

/-- The first request is accepted and has not one of the headers, and of the second the header is lost. -/
theorem not_exact : ¬ Exact id (requestText underscored) ∧ ¬ Exact id (requestText unspaced) := by
  have hunderscored : lines (requestText underscored) = underscored :=
    lines_requestText (by decide)
  have hunspaced : lines (requestText unspaced) = unspaced := lines_requestText (by decide)
  constructor
  · intro hexact
    have hvalid : (checkwebsocketValid id (underscored.tail.foldl addLine .empty)).isOk = true := by
      decide +kernel
    rcases hresponse : checkwebsocketValid id (underscored.tail.foldl addLine .empty) with e | response
    · rw [hresponse] at hvalid
      simp [Except.isOk, Except.toBool] at hvalid
    · have hcarries := hexact.accepts _ response ((returns_iff _ _).mpr rfl)
        (by rw [parseHttpheader_eq, hunderscored, hresponse])
      have hnone : valueOf (requestText underscored) (bytes "upgrade") = none := by
        rw [valueOf_eq, hunderscored]
        decide +kernel
      have hupgrade := hcarries.upgrade
      rw [hnone] at hupgrade
      simp at hupgrade
  · intro hexact
    have hget := (parses_iff _).mp hexact.parses (bytes "upgrade")
    rw [parseHttpheader_eq, valueOf_eq, hunspaced] at hget
    revert hget
    decide +kernel

end AntServer.WebSocket
