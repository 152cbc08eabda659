import CouncilDaemon.Transport.StompFrame

/-!
# The frame codec

What the parser makes of a marshalled frame, and of any other text. The parser reads a header value up
to its first colon and the body up to its first line break, and it reads past the last line unless the
text has an empty line with another one behind it.
-/

namespace CouncilDaemon

namespace StompFrame

/-! ## Marshalled text -/

theorem intercalate_append {lines others : List (List Char)} (hlines : lines ≠ [])
    (hothers : others ≠ []) : [LF].intercalate (lines ++ others) =
      [LF].intercalate lines ++ LF :: [LF].intercalate others := by
  induction lines with
  | nil => exact absurd rfl hlines
  | cons line lines ih =>
    cases lines with
    | nil =>
      rw [List.singleton_append, List.intercalate_cons_of_ne_nil hothers]
      simp [List.intercalate]
    | cons second lines =>
      have hrest := ih (by simp)
      rw [List.cons_append] at hrest
      rw [List.cons_append, List.cons_append, List.intercalate_cons_cons, hrest,
        List.intercalate_cons_cons, List.append_assoc, List.append_assoc, List.append_assoc]

theorem intercalate_singleton (line : List Char) : [LF].intercalate [line] = line := by
  simp [List.intercalate]

theorem splitOn_lines {lines : List (List Char)} (hlines : ∀ line ∈ lines, LF ∉ line)
    (rest : List Char) :
    ([LF].intercalate (lines ++ [rest])).splitOn LF = lines ++ rest.splitOn LF := by
  by_cases hempty : lines = []
  · rw [hempty, List.nil_append, List.nil_append, intercalate_singleton]
  · rw [intercalate_append hempty (by simp), intercalate_singleton, List.splitOn_append_cons_self,
      List.splitOn_intercalate LF hlines hempty]

/-- The lines of a marshalled frame. -/
theorem splitOn_marshall {command : String} {headers : Headers} {body : String}
    (hcommand : LF ∉ command.toList)
    (hheaders : ∀ header ∈ sentHeaders headers body, LF ∉ headerLine header) :
    (marshall command headers body).toList.splitOn LF =
      command.toList :: (sentHeaders headers body).map headerLine ++
        [] :: (body.toList ++ [NULL]).splitOn LF := by
  have hlines : ∀ line ∈ command.toList :: (sentHeaders headers body).map headerLine ++ [[]],
      LF ∉ line := by
    intro line hline
    simp only [List.cons_append, List.mem_cons, List.mem_append, List.mem_map, List.not_mem_nil,
      or_false] at hline
    rcases hline with rfl | ⟨header, hheader, rfl⟩ | rfl
    · exact hcommand
    · exact hheaders header hheader
    · simp
  have htext : (marshall command headers body).toList =
      [LF].intercalate ((command.toList :: (sentHeaders headers body).map headerLine ++ [[]]) ++
        [body.toList ++ [NULL]]) := by
    rw [marshall, StompFrame.toString, String.toList_append, String.toList_ofList,
      String.toList_ofList, intercalate_append (by simp) (by simp),
      intercalate_append (by simp) (by simp), intercalate_append (by simp) (by simp)]
    simp
  rw [htext, splitOn_lines hlines]
  simp

/-! ## Header lines -/

/-- A header value as it is read back. -/
def upToColon (value : String) : String := String.ofList (value.toList.takeWhile (· ≠ ':'))

theorem head?_splitOn (value : List Char) :
    (value.splitOn ':').head? = some (value.takeWhile (· ≠ ':')) := by
  by_cases hcolon : ':' ∈ value
  · obtain ⟨before, after, rfl, hbefore⟩ := List.eq_append_cons_of_mem hcolon
    rw [List.splitOn_append_cons_self_of_not_mem hbefore, List.head?_cons, List.takeWhile_append_of_pos]
    · simp
    · intro c hc
      simp only [decide_eq_true_eq]
      rintro rfl
      exact hbefore hc
  · rw [List.splitOn_eq_singleton hcolon, List.head?_cons, List.takeWhile_eq_self_iff.2]
    intro c hc
    simp only [decide_eq_true_eq]
    rintro rfl
    exact hcolon hc

theorem upToColon_eq_self {value : String} : upToColon value = value ↔ ':' ∉ value.toList := by
  unfold upToColon
  rw [← String.toList_inj, String.toList_ofList, List.takeWhile_eq_self_iff]
  constructor
  · intro hall hcolon
    exact absurd (hall ':' hcolon) (by decide)
  · intro hcolon c hc
    simp only [decide_eq_true_eq]
    rintro rfl
    exact hcolon hc

theorem readHeader_headerLine {key : String} (hkey : ':' ∉ key.toList) (value : String)
    (headers : Headers) :
    readHeader headers (headerLine (key, value)) = setHeader headers key (some (upToColon value)) := by
  unfold readHeader headerLine
  rw [List.splitOn_append_cons_self_of_not_mem hkey]
  dsimp only
  rw [head?_splitOn, String.ofList_toList]
  rfl

theorem get?_setHeader (headers : Headers) (key value k : String) :
    (setHeader headers key (some value)).get? k =
      if key = k ∧ k ≠ "__proto__" then some value else headers.get? k := by
  unfold setHeader
  by_cases hproto : key = "__proto__"
  · rw [if_pos hproto, if_neg]
    rintro ⟨rfl, hne⟩
    exact hne hproto
  · rw [if_neg hproto, InsertionMap.get?_set]
    by_cases hkey : key = k
    · rw [if_pos hkey, if_pos ⟨hkey, hkey ▸ hproto⟩]
    · rw [if_neg hkey, if_neg fun h => hkey h.1]

/-- What is read from the lines of headers with different keys. -/
theorem get?_foldl_readHeader (k : String) : ∀ (sent : List (String × String)) (headers : Headers),
    (sent.map Prod.fst).Nodup → (∀ header ∈ sent, ':' ∉ header.1.toList) →
    ((sent.map headerLine).foldl readHeader headers).get? k =
      if k = "__proto__" then headers.get? k
      else ((InsertionMap.find k sent).map upToColon).or (headers.get? k) := by
  intro sent
  induction sent with
  | nil =>
    intro headers _ _
    show headers.get? k = if k = "__proto__" then headers.get? k else (none : Option String).or _
    rw [Option.none_or, ite_self]
  | cons header sent ih =>
    intro headers hnodup hcolons
    obtain ⟨key, value⟩ := header
    obtain ⟨hnot, hrest⟩ := List.nodup_cons.1 hnodup
    rw [List.map_cons, List.foldl_cons, readHeader_headerLine (hcolons _ (List.mem_cons_self ..)),
      ih _ hrest fun h hh => hcolons h (List.mem_cons_of_mem _ hh), get?_setHeader,
      InsertionMap.find]
    by_cases hproto : k = "__proto__"
    · rw [if_pos hproto, if_pos hproto, if_neg fun h => h.2 hproto]
    · rw [if_neg hproto, if_neg hproto]
      by_cases hkey : key = k
      · subst hkey
        rw [if_pos ⟨rfl, hproto⟩, if_pos rfl, InsertionMap.find_eq_none hnot]
        rfl
      · rw [if_neg fun h => hkey h.1, if_neg hkey]

theorem readHeaders_append {lines : List (List Char)} (hlines : ∀ line ∈ lines, line ≠ [])
    (rest : List (List Char)) : ∀ headers : Headers,
    readHeaders headers (lines ++ [] :: rest) = some (lines.foldl readHeader headers, rest) := by
  induction lines with
  | nil => exact fun _ => rfl
  | cons line lines ih =>
    intro headers
    rw [List.cons_append, readHeaders, if_neg (hlines line (List.mem_cons_self ..)),
      ih fun l hl => hlines l (List.mem_cons_of_mem _ hl), List.foldl_cons]

/-! ## The headers of a frame -/

/-- A header map that can be written: no key has a colon or a line break, and no value has a line
break. -/
structure Writable (headers : Headers) : Prop where
  key : ∀ header ∈ headers.entries, ':' ∉ header.1.toList ∧ LF ∉ header.1.toList
  value : ∀ header ∈ headers.entries, LF ∉ header.2.toList

theorem mem_sentHeaders {headers : Headers} {body : String} {header : String × String}
    (h : header ∈ sentHeaders headers body) :
    header ∈ headers.entries ∨ header = ("content-length", ToString.toString (codeUnits body)) := by
  rcases List.mem_append.1 h with hmem | hmem
  · exact Or.inl (List.mem_filter.1 hmem).1
  · split_ifs at hmem
    · cases hmem
    · exact Or.inr (List.mem_singleton.1 hmem)

theorem find_sentHeaders (headers : Headers) (body k : String) :
    InsertionMap.find k (sentHeaders headers body) =
      if k = "content-length" then
        if (headers.get? "content-length").isSome then none
        else some (ToString.toString (codeUnits body))
      else headers.get? k := by
  unfold sentHeaders
  rw [InsertionMap.find_append, InsertionMap.find_filter_ne]
  by_cases hk : k = "content-length"
  · rw [if_pos hk, if_pos hk.symm, Option.none_or, hk]
    split_ifs
    · rfl
    · rfl
  · rw [if_neg hk, if_neg (Ne.symm hk)]
    have hlast : InsertionMap.find k (if (headers.get? "content-length").isSome then []
        else [("content-length", ToString.toString (codeUnits body))]) = none := by
      split_ifs
      · rfl
      · exact if_neg (Ne.symm hk)
    rw [hlast, Option.or_none]
    rfl

theorem nodup_sentHeaders (headers : Headers) (body : String) :
    ((sentHeaders headers body).map Prod.fst).Nodup := by
  unfold sentHeaders
  rw [List.map_append, List.nodup_append]
  refine ⟨headers.nodup.sublist (List.filter_sublist.map Prod.fst), ?_, ?_⟩
  · split_ifs
    · exact List.nodup_nil
    · exact List.nodup_singleton _
  · intro key hkey other hother
    obtain ⟨header, hheader, rfl⟩ := List.mem_map.1 hkey
    have hne := of_decide_eq_true (List.mem_filter.1 hheader).2
    split_ifs at hother
    · cases hother
    · rw [List.map_cons, List.map_nil, List.mem_singleton] at hother
      rw [hother]
      exact hne

theorem writable_sentHeaders {headers : Headers} (h : Writable headers) {body : String}
    {header : String × String} (hheader : header ∈ sentHeaders headers body) :
    ':' ∉ header.1.toList ∧ LF ∉ headerLine header ∧ headerLine header ≠ [] := by
  have hcolon : LF ≠ ':' := by decide
  have hline : ':' ∉ header.1.toList ∧ LF ∉ header.1.toList ∧ LF ∉ header.2.toList := by
    rcases mem_sentHeaders hheader with hmem | rfl
    · exact ⟨(h.key header hmem).1, (h.key header hmem).2, h.value header hmem⟩
    · have hcolon : ':' ∉ "content-length".toList := by decide
      have hbreak : LF ∉ "content-length".toList := by decide
      exact ⟨hcolon, hbreak, Separator.not_mem_toString (by decide) _⟩
  refine ⟨hline.1, ?_, by simp [headerLine]⟩
  simp only [headerLine, List.mem_append, List.mem_cons, not_or]
  exact ⟨hline.2.1, hcolon, hline.2.2⟩

/-! ## What is read back -/

/-- The first line of a body, with the end of the frame where the body has one line. -/
def firstLine (body : String) : List Char :=
  if LF ∈ body.toList then body.toList.takeWhile (· ≠ LF) else body.toList ++ [NULL]

theorem splitOn_body (body : String) :
    ∃ rest, (body.toList ++ [NULL]).splitOn LF = firstLine body :: rest := by
  unfold firstLine
  by_cases hbreak : LF ∈ body.toList
  · obtain ⟨before, after, hbody, hbefore⟩ := List.eq_append_cons_of_mem hbreak
    rw [if_pos hbreak, hbody, List.append_assoc, List.cons_append,
      List.splitOn_append_cons_self_of_not_mem hbefore, List.takeWhile_append_of_pos]
    · exact ⟨(after ++ [NULL]).splitOn LF, by simp⟩
    · intro c hc
      simp only [decide_eq_true_eq]
      rintro rfl
      exact hbefore hc
  · rw [if_neg hbreak, List.splitOn_eq_singleton]
    · exact ⟨[], rfl⟩
    · simp only [List.mem_append, List.mem_singleton, not_or]
      exact ⟨hbreak, by decide⟩

theorem strip_eq_self {line : List Char} (h : ∀ c ∈ line, isWhitespace c = false) :
    strip line = line := by
  have hkept : ∀ l : List Char, (∀ c ∈ l, isWhitespace c = false) → l.dropWhile isWhitespace = l := by
    intro l hl
    cases l with
    | nil => rfl
    | cons c l => rw [List.dropWhile_cons_of_neg (by rw [hl c (List.mem_cons_self ..)]; simp)]
  unfold strip
  rw [hkept line h, hkept line.reverse fun c hc => h c (List.mem_reverse.1 hc), List.reverse_reverse]

/-- The parser on a marshalled frame. -/
theorem unmarshallSingle_marshall {command : String} {headers : Headers} (body : String)
    (hcommand : ∀ c ∈ command.toList, isWhitespace c = false) (hheaders : Writable headers) :
    unmarshallSingle (marshall command headers body) =
      .ok ⟨command, ((sentHeaders headers body).map headerLine).foldl readHeader InsertionMap.empty,
        readBody (firstLine body)⟩ := by
  have hbreak : LF ∉ command.toList := by
    intro hmem
    exact absurd (hcommand LF hmem) (by decide)
  obtain ⟨rest, hbody⟩ := splitOn_body body
  have hlines : ∀ line ∈ (sentHeaders headers body).map headerLine, line ≠ [] := by
    intro line hline
    obtain ⟨header, hheader, rfl⟩ := List.mem_map.1 hline
    exact (writable_sentHeaders hheaders hheader).2.2
  have hne : marshall command headers body ≠ String.ofList [LF] := by
    intro heq
    have hlast := congrArg (fun text : String => text.toList.getLast?) heq
    rw [marshall, String.toList_append, String.toList_ofList, String.toList_ofList,
      List.getLast?_append, show [NULL].getLast? = some NULL from rfl, Option.some_or] at hlast
    exact absurd hlast (by decide)
  unfold unmarshallSingle
  rw [if_neg hne, splitOn_marshall hbreak fun header hheader =>
    (writable_sentHeaders hheaders hheader).2.1, hbody, List.cons_append]
  dsimp only
  rw [readHeaders_append hlines]
  dsimp only
  rw [strip_eq_self hcommand, String.ofList_toList]

/-! ## The round trip -/

/-- A frame reads back as it was written, and its `content-length` is the number of its octets. -/
def RoundTrip (command : String) (headers : Headers) (body : String) : Prop :=
  ∃ frame, unmarshallSingle (marshall command headers body) = .ok frame ∧ frame.command = command ∧
    (∀ key ≠ "content-length", frame.headers.get? key = headers.get? key) ∧ frame.body = body ∧
    frame.headers.get? "content-length" = some (ToString.toString body.utf8ByteSize)

/-- No value has a colon, the names the codec treats in its own way are not used, and the body is one
line of ASCII. -/
structure Plain (headers : Headers) (body : String) : Prop where
  values : ∀ header ∈ headers.entries, ':' ∉ header.2.toList
  contentLength : headers.get? "content-length" = none
  proto : headers.get? "__proto__" = none
  line : LF ∉ body.toList
  ascii : ∀ c ∈ body.toList, c.toNat ≤ 127

/-- A character takes fewer code units than octets, unless it is ASCII. -/
theorem codeUnit_lt {c : Char} (h : 127 < c.toNat) :
    (if c.toNat < 0x10000 then 1 else 2) < c.utf8Size := by
  have hpos := c.utf8Size_pos
  have hone : c.utf8Size ≠ 1 := by
    intro hsize
    have hascii : c.toNat ≤ 127 := UInt32.le_iff_toNat_le.1 (Char.utf8Size_eq_one_iff.1 hsize)
    omega
  split_ifs with hsmall
  · omega
  · have hlarge : (0xffff : UInt32).toNat < c.val.toNat := by
      show 0xffff < c.toNat
      omega
    have hfour : c.utf8Size = 4 := Char.utf8Size_eq_four_iff.2 (UInt32.lt_iff_toNat_lt.2 hlarge)
    omega

theorem codeUnit_of_ascii {c : Char} (h : c.toNat ≤ 127) :
    (if c.toNat < 0x10000 then 1 else 2) = c.utf8Size := by
  have hascii : c.utf8Size = 1 := Char.utf8Size_eq_one_iff.2 (UInt32.le_iff_toNat_le.2 h)
  rw [hascii, if_pos (by omega)]

theorem codeUnits_eq_iff (text : String) :
    codeUnits text = text.utf8ByteSize ↔ ∀ c ∈ text.toList, c.toNat ≤ 127 := by
  rw [← String.utf8Len_toList, codeUnits]
  have hlist : ∀ l : List Char, (l.map fun c => if c.toNat < 0x10000 then 1 else 2).sum ≤
      String.utf8Len l ∧
      ((l.map fun c => if c.toNat < 0x10000 then 1 else 2).sum = String.utf8Len l ↔
        ∀ c ∈ l, c.toNat ≤ 127) := by
    intro l
    induction l with
    | nil => simp
    | cons c l ih =>
      obtain ⟨hle, hiff⟩ := ih
      rw [List.map_cons, List.sum_cons, String.utf8Len_cons, List.forall_mem_cons]
      by_cases hascii : c.toNat ≤ 127
      · have hunit := codeUnit_of_ascii hascii
        refine ⟨by omega, ⟨fun heq => ⟨hascii, hiff.1 (by omega)⟩, fun hall => ?_⟩⟩
        have hrest := hiff.2 hall.2
        omega
      · have hunit := codeUnit_lt (Nat.lt_of_not_le hascii)
        refine ⟨by omega, ⟨fun heq => by omega, fun hall => absurd hall.1 hascii⟩⟩
  exact (hlist text.toList).2

theorem readBody_eq_iff (body : String) : readBody (firstLine body) = body ↔ LF ∉ body.toList := by
  unfold firstLine
  by_cases hbreak : LF ∈ body.toList
  · rw [if_pos hbreak]
    refine ⟨fun heq => ?_, fun hnot => absurd hbreak hnot⟩
    have hline : LF ∉ body.toList.takeWhile (· ≠ LF) := by
      intro hmem
      exact absurd (List.mem_takeWhile_imp hmem) (by decide)
    have hread : LF ∉ (readBody (body.toList.takeWhile (· ≠ LF))).toList := by
      unfold readBody
      split_ifs
      · exact List.not_mem_nil
      · rw [String.toList_ofList]
        exact fun hmem => hline (List.mem_of_mem_dropLast hmem)
    rwa [heq] at hread
  · rw [if_neg hbreak]
    refine ⟨fun _ => hbreak, fun _ => ?_⟩
    unfold readBody
    rw [List.dropLast_concat, String.ofList_toList]
    split_ifs with hempty
    · have hnil : body.toList = [] := List.append_left_eq_self.1 hempty
      exact (String.toList_eq_nil_iff.1 hnil).symm
    · rfl

/-- **The codec.** A writable frame whose command has no whitespace makes the round trip exactly when
it is plain. -/
theorem roundTrip_iff {command : String} {headers : Headers} {body : String}
    (hcommand : ∀ c ∈ command.toList, isWhitespace c = false) (hheaders : Writable headers) :
    RoundTrip command headers body ↔ Plain headers body := by
  have hread := unmarshallSingle_marshall body hcommand hheaders
  have hget : ∀ key, (((sentHeaders headers body).map headerLine).foldl readHeader
      InsertionMap.empty).get? key = if key = "__proto__" then none
        else (InsertionMap.find key (sentHeaders headers body)).map upToColon := by
    intro key
    rw [get?_foldl_readHeader key _ _ (nodup_sentHeaders headers body) fun header hheader =>
      (writable_sentHeaders hheaders hheader).1, InsertionMap.get?_empty, Option.or_none]
  have hlength : ∀ n : ℕ, upToColon (ToString.toString n) = ToString.toString n := fun n =>
    upToColon_eq_self.2 (Separator.not_mem_toString (by decide) n)
  constructor
  · rintro ⟨frame, hframe, _, hkept, hbody, hoctets⟩
    rw [hread] at hframe
    cases hframe
    have hproto : headers.get? "__proto__" = none := by
      rw [← hkept "__proto__" (by decide), hget, if_pos rfl]
    rw [hget, if_neg (by decide), find_sentHeaders, if_pos rfl] at hoctets
    have hnone : headers.get? "content-length" = none := by
      cases hgiven : headers.get? "content-length" with
      | none => rfl
      | some value =>
        rw [hgiven] at hoctets
        cases hoctets
    rw [hnone, Option.isSome_none, if_neg Bool.false_ne_true, Option.map_some, hlength] at hoctets
    refine ⟨?_, hnone, hproto, (readBody_eq_iff body).1 hbody,
      (codeUnits_eq_iff body).1 (Nat.repr_inj.1 (Option.some.inj hoctets))⟩
    rintro ⟨key, value⟩ hentry
    have hvalue : headers.get? key = some value := headers.mem_entries_iff.1 hentry
    have hlengthKey : key ≠ "content-length" := by
      rintro rfl
      rw [hnone] at hvalue
      cases hvalue
    have hprotoKey : key ≠ "__proto__" := by
      rintro rfl
      rw [hproto] at hvalue
      cases hvalue
    have hsame := hkept key hlengthKey
    rw [hget, if_neg hprotoKey, find_sentHeaders, if_neg hlengthKey, hvalue] at hsame
    exact upToColon_eq_self.1 (Option.some.inj hsame)
  · intro hplain
    refine ⟨_, hread, rfl, ?_, (readBody_eq_iff body).2 hplain.line, ?_⟩
    · intro key hlengthKey
      dsimp only
      rw [hget]
      by_cases hprotoKey : key = "__proto__"
      · rw [if_pos hprotoKey, hprotoKey, hplain.proto]
      · rw [if_neg hprotoKey, find_sentHeaders, if_neg hlengthKey]
        cases hvalue : headers.get? key with
        | none => rfl
        | some value =>
          have hcolon := hplain.values _ (headers.mem_entries_iff.2 hvalue)
          rw [Option.map_some, upToColon_eq_self.2 hcolon]
    · dsimp only
      rw [hget, if_neg (by decide), find_sentHeaders, if_pos rfl, hplain.contentLength,
        Option.isSome_none, if_neg Bool.false_ne_true, Option.map_some, hlength,
        (codeUnits_eq_iff body).2 hplain.ascii]

/-! ## Any text -/

/-- An empty line with another one behind it. -/
def Terminated (lines : List (List Char)) : Prop :=
  ∃ before line after, lines = before ++ [] :: line :: after

theorem terminated_cons {line : List Char} (hline : line ≠ []) {lines : List (List Char)} :
    Terminated (line :: lines) ↔ Terminated lines := by
  constructor
  · rintro ⟨before, next, after, h⟩
    cases before with
    | nil => exact absurd (List.cons.inj h).1 hline
    | cons first before => exact ⟨before, next, after, (List.cons.inj h).2⟩
  · rintro ⟨before, next, after, rfl⟩
    exact ⟨line :: before, next, after, rfl⟩

/-- The loop ends at an empty line, with the body behind it. -/
theorem readHeaders_terminated {lines : List (List Char)} : ∀ headers : Headers,
    (∃ read line after, readHeaders headers lines = some (read, line :: after)) ↔
      Terminated lines := by
  induction lines with
  | nil =>
    intro headers
    constructor
    · rintro ⟨_, _, _, h⟩
      cases h
    · rintro ⟨before, _, _, h⟩
      simp at h
  | cons line lines ih =>
    intro headers
    rw [readHeaders]
    by_cases hline : line = []
    · rw [if_pos hline, hline]
      constructor
      · rintro ⟨read, next, after, h⟩
        obtain ⟨_, hlines⟩ := Prod.mk.inj (Option.some.inj h)
        exact ⟨[], next, after, by rw [hlines, List.nil_append]⟩
      · rintro ⟨before, next, after, h⟩
        have hrest : lines ≠ [] := by
          rintro rfl
          have hlength := congrArg List.length h
          simp at hlength
          omega
        obtain ⟨next', after', rfl⟩ := List.exists_cons_of_ne_nil hrest
        exact ⟨headers, next', after', rfl⟩
    · rw [if_neg hline, ih, terminated_cons hline]

/-- Lines of a text, the first apart, are terminated when the text has two line breaks in a row. -/
theorem terminated_iff {text command : List Char} {lines : List (List Char)}
    (h : text.splitOn LF = command :: lines) : Terminated lines ↔ [LF, LF] <:+: text := by
  constructor
  · rintro ⟨before, line, after, rfl⟩
    have htext : [LF].intercalate (text.splitOn LF) = text := List.intercalate_splitOn LF
    rw [h, ← List.cons_append, intercalate_append (by simp) (by simp),
      List.intercalate_cons_cons, List.nil_append, List.singleton_append] at htext
    rw [← htext]
    exact ⟨[LF].intercalate (command :: before), [LF].intercalate (line :: after), by simp⟩
  · rintro ⟨before, after, rfl⟩
    rw [List.append_assoc, List.cons_append, List.cons_append, List.nil_append,
      List.splitOn_append_cons_self, ← List.nil_append (LF :: after),
      List.splitOn_append_cons_self_of_not_mem List.not_mem_nil after] at h
    obtain ⟨first, rest, hfirst⟩ := List.exists_cons_of_ne_nil (List.splitOn_ne_nil LF before)
    obtain ⟨next, others, hnext⟩ := List.exists_cons_of_ne_nil (List.splitOn_ne_nil LF after)
    rw [hfirst, hnext, List.cons_append, List.cons.injEq] at h
    exact ⟨rest, next, others, h.2.symm⟩

/-- A text that the parser does not run past: a single line break, or one with two line breaks in a
row. -/
def Framed (data : String) : Prop := data = String.ofList [LF] ∨ [LF, LF] <:+: data.toList

theorem unmarshallSingle_typeError_iff (data : String) :
    unmarshallSingle data = .error .typeError ↔ ¬ Framed data := by
  unfold unmarshallSingle Framed
  by_cases hempty : data = String.ofList [LF]
  · rw [if_pos hempty]
    constructor
    · intro h
      cases h
    · intro h
      exact absurd (Or.inl hempty) h
  · obtain ⟨command, lines, hlines⟩ := List.exists_cons_of_ne_nil (List.splitOn_ne_nil LF data.toList)
    have hframed : (data = String.ofList [LF] ∨ [LF, LF] <:+: data.toList) ↔
        ∃ read line after, readHeaders InsertionMap.empty lines = some (read, line :: after) := by
      rw [readHeaders_terminated, terminated_iff hlines, or_iff_right hempty]
    rw [if_neg hempty, hlines, hframed]
    dsimp only
    split
    · next hread =>
      refine ⟨fun _ => ?_, fun _ => rfl⟩
      rintro ⟨_, _, _, h⟩
      rw [hread] at h
      cases h
    · next hread =>
      refine ⟨fun _ => ?_, fun _ => rfl⟩
      rintro ⟨_, _, _, h⟩
      rw [hread] at h
      cases h
    · next headers line after hread =>
      constructor
      · intro h
        cases h
      · intro h
        exact absurd ⟨headers, line, after, hread⟩ h

/-! ## What a text says -/

/-- The command on the first line of a text. -/
def commandOf (data : String) : String := String.ofList (strip ((data.toList.splitOn LF).headD []))

/-- The lines of a text behind the first one, up to an empty one. -/
def headerLines (data : String) : List (List Char) :=
  (data.toList.splitOn LF).tail.takeWhile (· ≠ [])

/-- What header lines set a header to: the part behind the key, up to the next colon, on the last line
with that key. -/
def valueIn (lines : List (List Char)) (key : String) : Option String :=
  (lines.reverse.find? fun line => (line.splitOn ':').head? = some key.toList).bind
    fun line => (line.splitOn ':')[1]?.map String.ofList

def headerValue (data key : String) : Option String := valueIn (headerLines data) key

theorem get?_readHeader {key : String} (hkey : key ≠ "__proto__") (headers : Headers)
    (line : List Char) : (readHeader headers line).get? key =
      if (line.splitOn ':').head? = some key.toList then (line.splitOn ':')[1]?.map String.ofList
      else headers.get? key := by
  obtain ⟨first, values, hline⟩ := List.exists_cons_of_ne_nil (List.splitOn_ne_nil ':' line)
  unfold readHeader setHeader
  rw [hline]
  simp only [List.head?_cons, Option.some_inj, List.getElem?_cons_succ]
  by_cases hfirst : first = key.toList
  · subst hfirst
    rw [String.ofList_toList, if_neg hkey, if_pos rfl, List.head?_eq_getElem?]
    cases values[0]?.map String.ofList with
    | none => rw [InsertionMap.get?_erase, if_pos rfl]
    | some value => rw [InsertionMap.get?_set, if_pos rfl]
  · have hne : String.ofList first ≠ key := by
      rintro rfl
      exact hfirst String.toList_ofList.symm
    rw [if_neg hfirst]
    split_ifs
    · rfl
    · cases values.head?.map String.ofList with
      | none => rw [InsertionMap.get?_erase, if_neg hne]
      | some value => rw [InsertionMap.get?_set, if_neg hne]

/-- The last line with a key decides. -/
theorem get?_foldl_readHeader_empty {key : String} (hkey : key ≠ "__proto__")
    (lines : List (List Char)) :
    (lines.foldl readHeader InsertionMap.empty).get? key = valueIn lines key := by
  induction lines using List.reverseRecOn with
  | nil => rfl
  | append_singleton lines line ih =>
    rw [List.foldl_concat, get?_readHeader hkey, ih]
    unfold valueIn
    rw [List.reverse_concat, List.find?_cons]
    by_cases hline : (line.splitOn ':').head? = some key.toList
    · rw [if_pos hline, decide_eq_true hline]
      rfl
    · rw [if_neg hline, decide_eq_false hline]

theorem readHeaders_eq_some {lines rest : List (List Char)} : ∀ {headers read : Headers},
    readHeaders headers lines = some (read, rest) →
      read = (lines.takeWhile (· ≠ [])).foldl readHeader headers := by
  induction lines with
  | nil =>
    intro headers read h
    cases h
  | cons line lines ih =>
    intro headers read h
    rw [readHeaders] at h
    by_cases hline : line = []
    · rw [if_pos hline] at h
      rw [List.takeWhile_cons_of_neg (by simp [hline])]
      exact (Prod.mk.inj (Option.some.inj h)).1.symm
    · rw [if_neg hline] at h
      rw [List.takeWhile_cons_of_pos (by simp [hline]), List.foldl_cons]
      exact ih h

/-- The frame that the parser returns has the command and the headers that the text says. -/
theorem unmarshallSingle_ok {data : String} {frame : StompFrame}
    (h : unmarshallSingle data = .ok frame) : frame.command = commandOf data ∧
      ∀ key ≠ "__proto__", frame.headers.get? key = headerValue data key := by
  unfold unmarshallSingle at h
  obtain ⟨command, lines, hlines⟩ := List.exists_cons_of_ne_nil (List.splitOn_ne_nil LF data.toList)
  rw [hlines] at h
  split_ifs at h
  dsimp only at h
  split at h
  · cases h
  · cases h
  · next headers line after hread =>
    obtain rfl := Except.ok.inj h
    refine ⟨by rw [commandOf, hlines, List.headD_cons], fun key hkey => ?_⟩
    rw [headerValue, headerLines, hlines, List.tail_cons, ← get?_foldl_readHeader_empty hkey,
      ← readHeaders_eq_some hread]

/-- A framed text is a single line break, or the text of a frame. -/
theorem Framed.cases {data : String} (h : Framed data) :
    unmarshallSingle data = .error (.stompFrameException "Empty frame") ∧ headerLines data = [] ∨
      ∃ frame, unmarshallSingle data = .ok frame := by
  by_cases hempty : data = String.ofList [LF]
  · left
    subst hempty
    exact ⟨if_pos rfl, rfl⟩
  · right
    have hread := mt (unmarshallSingle_typeError_iff data).1 (not_not.2 h)
    cases hframe : unmarshallSingle data with
    | ok frame => exact ⟨frame, rfl⟩
    | error error =>
      cases error with
      | typeError => exact absurd hframe hread
      | stompFrameException message =>
        unfold unmarshallSingle at hframe
        rw [if_neg hempty] at hframe
        split at hframe
        · cases hframe
        · split at hframe
          · cases hframe
          · cases hframe
          · cases hframe

namespace Sample

def topic (destination : String) : Headers := InsertionMap.empty.set "destination" destination

theorem writable_topic {destination : String} (h : LF ∉ destination.toList) :
    Writable (topic destination) where
  key := by
    intro header hheader
    rw [List.mem_singleton.1 hheader]
    have hcolon : ':' ∉ "destination".toList := by decide
    have hbreak : LF ∉ "destination".toList := by decide
    exact ⟨hcolon, hbreak⟩
  value := by
    intro header hheader
    rw [List.mem_singleton.1 hheader]
    exact h

/-- A colon in a header value, a line break in the body, and a letter that is not ASCII. -/
theorem frames_not_read_back :
    ¬ RoundTrip "SEND" (topic "a:1") "" ∧ ¬ RoundTrip "SEND" (topic "a") "b\nc" ∧
      ¬ RoundTrip "SEND" (topic "a") "é" := by
  refine ⟨?_, ?_, ?_⟩
  · rintro ⟨frame, hframe, _, hheaders, _⟩
    have hread : (unmarshallSingle (marshall "SEND" (topic "a:1") "")).toOption.map
        (fun f => f.headers.get? "destination") = some (some "a") := by
      decide +kernel
    have hwritten : (topic "a:1").get? "destination" ≠ some "a" := by
      decide +kernel
    rw [hframe] at hread
    exact hwritten ((hheaders "destination" (by decide)).symm.trans (Option.some.inj hread))
  · rintro ⟨frame, hframe, _, _, hbody, _⟩
    have hread : (unmarshallSingle (marshall "SEND" (topic "a") "b\nc")).toOption.map
        StompFrame.body = some "" := by
      decide +kernel
    rw [hframe] at hread
    have hempty : "b\nc" = "" := hbody.symm.trans (Option.some.inj hread)
    exact absurd hempty (by decide)
  · rintro ⟨frame, hframe, _, _, _, hlength⟩
    have hread : (unmarshallSingle (marshall "SEND" (topic "a") "é")).toOption.map
        (fun f => f.headers.get? "content-length") = some (some "1") := by
      decide +kernel
    have hoctets : some (ToString.toString "é".utf8ByteSize) ≠ some "1" := by
      decide +kernel
    rw [hframe] at hread
    exact hoctets (hlength.symm.trans (Option.some.inj hread))

theorem roundTrip_iff_sample : RoundTrip "SEND" (topic "/a/b") "c d" := by
  have hcommand : ∀ c ∈ "SEND".toList, isWhitespace c = false := fun c hc =>
    of_decide_eq_true (List.all_eq_true.1 (by decide :
      "SEND".toList.all (fun c => decide (isWhitespace c = false)) = true) c hc)
  have hbreak : LF ∉ "/a/b".toList := by decide
  refine (roundTrip_iff hcommand (writable_topic hbreak)).2 ⟨?_, rfl, rfl, by decide, ?_⟩
  · intro header hheader
    have hcolon : ':' ∉ "/a/b".toList := by decide
    rw [List.mem_singleton.1 hheader]
    exact hcolon
  · intro c hc
    exact of_decide_eq_true (List.all_eq_true.1 (by decide :
      "c d".toList.all (fun c => decide (c.toNat ≤ 127)) = true) c hc)

end Sample

end StompFrame

end CouncilDaemon
