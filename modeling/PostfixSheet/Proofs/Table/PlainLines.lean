import PostfixSheet.Proofs.Table.TextDocuments

/-! Texts without quotes. Such a text is read line by line: the fields of a record are what lies between the
delimiters of one line, and a line without characters is a blank one. -/

namespace PostfixSheet

/-- The lines of a text without what ends them: a carriage return, a line feed, or one behind the other. An
empty piece behind the last break is no line. -/
def textLines : List Char → List (List Char)
  | [] => []
  | '\r' :: '\n' :: rest => [] :: textLines rest
  | first :: rest =>
      if first = '\r' ∨ first = '\n' then [] :: textLines rest
      else
        match textLines rest with
        | [] => [[first]]
        | line :: more => (first :: line) :: more

def Terminator.characters : Terminator → List Char
  | .lf => ['\n']
  | .crlf => ['\r', '\n']
  | .cr => ['\r']

def Unended (line : List Char) : Prop :=
  ∀ character ∈ line, character ≠ '\r' ∧ character ≠ '\n'

theorem Unended.cons {first : Char} {line : List Char} (unended : Unended line)
    (inside : ¬(first = '\r' ∨ first = '\n')) : Unended (first :: line) := by
  intro character member
  rcases List.mem_cons.mp member with rfl | later
  · exact not_or.mp inside
  · exact unended character later

theorem encodeChars_ne_nil (characters : List Char) (nonempty : characters ≠ []) :
    encodeChars characters ≠ [] := by
  cases characters with
  | nil => contradiction
  | cons first rest => simp [encodeChars, String.utf8EncodeChar_ne_nil]

theorem encodeChars_subset {left right : List Char}
    (inside : ∀ character ∈ left, character ∈ right) :
    ∀ byte ∈ encodeChars left, byte ∈ encodeChars right := by
  intro byte member
  obtain ⟨character, belongs, same⟩ := List.mem_flatMap.mp member
  exact List.mem_flatMap.mpr ⟨character, inside character belongs, same⟩

theorem encodeChars_terminator (terminator : Terminator) :
    encodeChars terminator.characters = terminator.bytes := by
  cases terminator <;> decide

theorem textLines_cases (text : List Char) :
    (text = [] ∧ textLines text = []) ∨
      (text ≠ [] ∧ Unended text ∧ textLines text = [text]) ∨
      ∃ (line : List Char) (terminator : Terminator) (rest : List Char), Unended line ∧
        text = line ++ (terminator.characters ++ rest) ∧ textLines text = line :: textLines rest ∧
        (terminator = .cr → rest.head? ≠ some '\n') := by
  fun_induction textLines text with
  | case1 => exact Or.inl ⟨rfl, rfl⟩
  | case2 rest ih => exact Or.inr (Or.inr ⟨[], .crlf, rest, by simp [Unended], rfl, rfl, by simp⟩)
  | case3 first rest single isBreak ih =>
      right
      right
      rcases isBreak with rfl | rfl
      · refine ⟨[], .cr, rest, by simp [Unended], rfl, rfl, fun _ follows => ?_⟩
        obtain ⟨later, split⟩ := List.head?_eq_some_iff.mp follows
        exact single later rfl split
      · exact ⟨[], .lf, rest, by simp [Unended], rfl, rfl, by simp⟩
  | case4 first rest single inside nothing ih =>
      rcases ih with ⟨rfl, _⟩ | ⟨_, _, only⟩ | ⟨_, _, _, _, _, lines, _⟩
      · exact Or.inr (Or.inl ⟨by simp, by simpa [Unended] using inside, rfl⟩)
      · simp [nothing] at only
      · simp [nothing] at lines
  | case5 first rest single inside line more found ih =>
      right
      rcases ih with ⟨_, lines⟩ | ⟨_, unended, lines⟩ |
        ⟨_, terminator, behind, unended, split, lines, other⟩
      · simp [found] at lines
      · obtain ⟨rfl, rfl⟩ := List.cons.inj (found.symm.trans lines)
        exact Or.inl ⟨by simp, unended.cons inside, rfl⟩
      · obtain ⟨rfl, rfl⟩ := List.cons.inj (found.symm.trans lines)
        exact Or.inr ⟨first :: line, terminator, behind, unended.cons inside, by rw [split]; rfl, rfl,
          other⟩

theorem length_rest_lt (line rest : List Char) (terminator : Terminator) :
    rest.length < (line ++ (terminator.characters ++ rest)).length := by
  rw [List.length_append, List.length_append]
  cases terminator <;> simp only [Terminator.characters, List.length_cons, List.length_nil] <;> omega

theorem textLines_inside (text : List Char) :
    ∀ line ∈ textLines text, Unended line ∧ ∀ character ∈ line, character ∈ text := by
  have outer (before : List Char) (lines : List (List Char)) (rest : List Char)
      (inside : ∀ line ∈ lines, Unended line ∧ ∀ character ∈ line, character ∈ rest) :
      ∀ line ∈ lines, Unended line ∧ ∀ character ∈ line, character ∈ before ++ rest := by
    intro line member
    obtain ⟨unended, belongs⟩ := inside line member
    exact ⟨unended, fun character found => List.mem_append_right before (belongs character found)⟩
  have blank (rest : List Char) : Unended [] ∧ ∀ character ∈ [], character ∈ rest := by
    simp [Unended]
  fun_induction textLines text with
  | case1 => simp
  | case2 rest ih => exact List.forall_mem_cons.mpr ⟨blank _, outer ['\r', '\n'] _ rest ih⟩
  | case3 first rest single isBreak ih =>
      exact List.forall_mem_cons.mpr ⟨blank _, outer [first] _ rest ih⟩
  | case4 first rest single inside nothing ih => simp [Unended, not_or.mp inside]
  | case5 first rest single inside line more found ih =>
      rw [found, List.forall_mem_cons] at ih
      obtain ⟨⟨unended, belongs⟩, later⟩ := ih
      rw [List.forall_mem_cons]
      refine ⟨⟨unended.cons inside, ?_⟩, outer [first] more rest later⟩
      intro character member
      rcases List.mem_cons.mp member with rfl | older
      · exact List.mem_cons_self
      · exact List.mem_cons_of_mem first (belongs character older)

theorem mem_of_mem_encodeChars (characters : List Char) (byte : UInt8) (low : byte.toNat < 0x80)
    (member : byte ∈ encodeChars characters) : Char.ofNat byte.toNat ∈ characters := by
  obtain ⟨character, belongs, inside⟩ := List.mem_flatMap.mp member
  rcases utf8EncodeChar_cases character with ⟨only, code, _, single⟩ | high
  · rw [single, List.mem_singleton] at inside
    rw [inside, code, Char.ofNat_toNat]
    exact belongs
  · have above := high byte inside
    omega

theorem Unended.bytes {line : List Char} (unended : Unended line) :
    ∀ byte ∈ encodeChars line, isLineBreak byte = false := by
  intro byte member
  obtain ⟨character, belongs, inside⟩ := List.mem_flatMap.mp member
  obtain ⟨notReturn, notFeed⟩ := unended character belongs
  exact isLineBreak_utf8EncodeChar character notFeed notReturn byte inside

theorem head?_of_encodeChars (characters : List Char)
    (follows : (encodeChars characters).head? = some lineFeed) : characters.head? = some '\n' := by
  cases characters with
  | nil => simp [encodeChars] at follows
  | cons first rest =>
      have nonempty := String.utf8EncodeChar_ne_nil (c := first)
      rw [encodeChars, List.flatMap_cons, List.head?_append_of_ne_nil _ nonempty] at follows
      have inside : lineFeed ∈ encodeChars [first] := by
        rw [encodeChars, List.flatMap_singleton]
        exact List.mem_of_head? follows
      have same := mem_of_mem_encodeChars [first] lineFeed (by decide) inside
      rw [List.mem_singleton] at same
      rw [List.head?_cons, ← same]
      rfl

theorem linesFrom_inside (current line rest : List UInt8)
    (inside : ∀ byte ∈ line, isLineBreak byte = false) :
    linesFrom current (line ++ rest) = linesFrom (line.reverse ++ current) rest := by
  induction line generalizing current with
  | nil => rfl
  | cons byte more ih =>
      have notBreak := inside byte (by simp)
      have notReturn := ne_carriageReturn byte notBreak
      have later := ih (byte :: current) fun other member => inside other (by simp [member])
      rw [List.cons_append, linesFrom]
      · simpa [notBreak] using later
      · exact fun _ isReturn => absurd isReturn notReturn

theorem linesFrom_terminator (current rest : List UInt8) (terminator : Terminator)
    (other : terminator = .cr → rest.head? ≠ some lineFeed) :
    linesFrom current (terminator.bytes ++ rest) = current.reverse :: linesFrom [] rest := by
  cases terminator with
  | lf => rfl
  | crlf => rfl
  | cr =>
      rw [Terminator.bytes, List.singleton_append, linesFrom]
      · rfl
      · rintro later _ rfl
        exact other rfl rfl

theorem sourceLines_encodeChars (text : List Char) :
    sourceLines (encodeChars text) = (textLines text).map encodeChars := by
  induction size : text.length using Nat.strongRecOn generalizing text with
  | ind length ih =>
      rcases textLines_cases text with ⟨rfl, lines⟩ | ⟨visible, unended, lines⟩ |
        ⟨line, terminator, rest, unended, rfl, lines, behindReturn⟩
      · rfl
      · have whole := linesFrom_inside [] (encodeChars text) [] unended.bytes
        rw [List.append_nil, List.append_nil] at whole
        rw [sourceLines, whole, lines, linesFrom]
        simp [encodeChars_ne_nil text visible]
      · have shorter := length_rest_lt line rest terminator
        rw [size] at shorter
        have other : terminator = .cr → (encodeChars rest).head? ≠ some lineFeed := by
          intro isReturn follows
          exact behindReturn isReturn (head?_of_encodeChars rest follows)
        rw [encodeChars_append, encodeChars_append, encodeChars_terminator, sourceLines,
          linesFrom_inside [] _ _ unended.bytes, linesFrom_terminator _ _ terminator other, lines,
          List.map_cons, ← ih rest.length shorter rest rfl]
        simp [sourceLines]

theorem mem_splitOn (separator : Char) (line : List Char) :
    ∀ piece ∈ line.splitOn separator, ∀ character ∈ piece,
      character ≠ separator ∧ character ∈ line := by
  rw [List.splitOn_eq_splitOnP]
  induction line with
  | nil => simp
  | cons first rest ih =>
      rw [List.splitOnP_cons_eq_if_modifyHead]
      intro piece member character inside
      by_cases separates : first = separator
      · rw [if_pos (by simpa using separates)] at member
        rcases List.mem_cons.mp member with rfl | later
        · simp at inside
        · obtain ⟨other, belongs⟩ := ih piece later character inside
          exact ⟨other, List.mem_cons_of_mem first belongs⟩
      · rw [if_neg (by simpa using separates)] at member
        cases pieces : rest.splitOnP (· == separator) with
        | nil => simp [pieces] at member
        | cons head more =>
            rw [pieces] at ih
            rw [pieces, List.modifyHead_cons] at member
            rcases List.mem_cons.mp member with rfl | later
            · rcases List.mem_cons.mp inside with rfl | older
              · exact ⟨separates, List.mem_cons_self⟩
              · obtain ⟨other, belongs⟩ := ih head List.mem_cons_self character older
                exact ⟨other, List.mem_cons_of_mem first belongs⟩
            · obtain ⟨other, belongs⟩ := ih piece (List.mem_cons_of_mem head later) character inside
              exact ⟨other, List.mem_cons_of_mem first belongs⟩

theorem encodeChars_intercalate (separator : Char) (pieces : List (List Char)) :
    encodeChars ([separator].intercalate pieces) =
      (String.utf8EncodeChar separator).intercalate (pieces.map encodeChars) := by
  induction pieces with
  | nil => rfl
  | cons piece rest ih =>
      cases rest with
      | nil => simp
      | cons second more =>
          rw [List.intercalate_cons_cons, encodeChars_append, encodeChars_append, ih]
          simp [encodeChars, List.intercalate_cons_cons]

namespace Dialect

variable (dialect : Dialect)

def joined (texts : List String) : List UInt8 :=
  [dialect.delimiter].intercalate (texts.map encodeText)

/-- The fields of a line that has no quotes; a line without characters has none. -/
def lineFields (line : List Char) : List String :=
  if line = [] then []
  else (line.splitOn (Char.ofNat dialect.delimiter.toNat)).map String.ofList

theorem lineFields_joined (low : dialect.delimiter.toNat < 0x80) (line : List Char) :
    dialect.joined (dialect.lineFields line) = encodeChars line := by
  rw [joined, lineFields]
  split
  · rename_i empty
    rw [empty]
    rfl
  · have whole : [Char.ofNat dialect.delimiter.toNat].intercalate
        (line.splitOn (Char.ofNat dialect.delimiter.toNat)) = line :=
      List.intercalate_splitOn (Char.ofNat dialect.delimiter.toNat)
    have bytes := encodeChars_intercalate (Char.ofNat dialect.delimiter.toNat)
      (line.splitOn (Char.ofNat dialect.delimiter.toNat))
    rw [whole, utf8EncodeChar_one dialect.delimiter low] at bytes
    rw [bytes, List.map_map]
    simp [encodeText, Function.comp_def]

theorem lineFields_eq_nil (line : List Char) : dialect.lineFields line = [] ↔ line = [] := by
  rw [lineFields]
  split
  · simp [*]
  · rename_i visible
    simp [visible, List.splitOn_ne_nil]

theorem lineFields_bytes (low : dialect.delimiter.toNat < 0x80) (line : List Char) :
    ∀ field ∈ dialect.lineFields line, ∀ byte ∈ encodeText field,
      byte ≠ dialect.delimiter ∧ byte ∈ encodeChars line := by
  intro field member byte inside
  rw [lineFields] at member
  split at member
  · simp at member
  · obtain ⟨piece, belongs, rfl⟩ := List.mem_map.mp member
    rw [encodeText, String.toList_ofList] at inside
    have pieces := mem_splitOn _ line piece belongs
    constructor
    · rintro rfl
      have separates := mem_of_mem_encodeChars piece dialect.delimiter low inside
      exact (pieces _ separates).1 rfl
    · exact encodeChars_subset (fun character found => (pieces character found).2) byte inside

/-- The delimiter is a character of its own, and ends no line. -/
structure Separating (dialect : Dialect) : Prop where
  low : dialect.delimiter.toNat < 0x80
  inside : isLineBreak dialect.delimiter = false

end Dialect

section Scanning

variable (dialect : Dialect)

theorem scan_ready (state : ScanState) (ready : state = .fieldStart ∨ state = .unquoted) (byte : UInt8)
    (other : byte ≠ dialect.quote) : dialect.scan state byte = dialect.scanUnquoted byte := by
  rcases ready with rfl | rfl
  · simp [Dialect.scan, Dialect.scanFieldStart, other]
  · rfl

theorem scanRecords_pieces (source : List UInt8) (before : List (List UInt8)) (first : List UInt8)
    (more : List (List UInt8)) (rest : List UInt8)
    (plain : ∀ piece ∈ first :: more, dialect.needsQuotes piece = false)
    (separated : more ≠ [] → dialect.delimiter ≠ dialect.quote) :
    let body := [dialect.delimiter].intercalate (first :: more)
    ∃ state field fields, (state = .fieldStart ∨ state = .unquoted) ∧
      (field.reverse :: fields).reverse = before.reverse ++ first :: more ∧
      scanRecords dialect ⟨.fieldStart, source, [], before⟩ (body ++ rest) =
        scanRecords dialect ⟨state, body.reverse ++ source, field, fields⟩ rest := by
  induction more generalizing source before first with
  | nil =>
      obtain ⟨state, ready, scanned⟩ := scanRecords_plain dialect .fieldStart source [] before first rest
        (plain first (by simp)) (Or.inl rfl)
      rw [List.intercalate_singleton]
      exact ⟨state, first.reverse ++ [], before, ready, by simp, scanned⟩
  | cons second more ih =>
      have distinct := separated (by simp)
      obtain ⟨state, ready, scanned⟩ := scanRecords_plain dialect .fieldStart source [] before first
        (dialect.delimiter :: ([dialect.delimiter].intercalate (second :: more) ++ rest))
        (plain first (by simp)) (Or.inl rfl)
      have ended : dialect.scan state dialect.delimiter = (.fieldStart, .endField) := by
        rw [scan_ready dialect state ready _ distinct]
        simp [Dialect.scanUnquoted]
      obtain ⟨final, field, fields, finished, whole, later⟩ := ih
        (dialect.delimiter :: (first.reverse ++ source)) (first :: before) second
        (fun piece member => plain piece (List.mem_cons_of_mem first member)) fun _ => distinct
      refine ⟨final, field, fields, finished, by simpa using whole, ?_⟩
      rw [List.intercalate_cons_cons, List.append_assoc, List.append_assoc, List.singleton_append,
        scanned, scanRecords_absorb dialect _ _ _ (by simp [ended])]
      simp only [OpenRecord.absorb, ended, List.append_nil, List.reverse_reverse]
      rw [later]
      simp

variable {dialect} (separating : dialect.Separating) (line : List Char) (visible : line ≠ [])
  (unended : Unended line) (unquoted : ∀ byte ∈ encodeChars line, byte ≠ dialect.quote)

include separating visible unended unquoted

theorem scanRecords_line (skipped rest : List UInt8) :
    ∃ state field fields, (state = .fieldStart ∨ state = .unquoted) ∧
      (field.reverse :: fields).reverse = (dialect.lineFields line).map encodeText ∧
      scanRecords dialect { source := skipped.reverse } (encodeChars line ++ rest) =
        scanRecords dialect ⟨state, (skipped ++ encodeChars line).reverse, field, fields⟩ rest := by
  have joined := dialect.lineFields_joined separating.low line
  have bytes := dialect.lineFields_bytes separating.low line
  have plain : ∀ piece ∈ (dialect.lineFields line).map encodeText,
      dialect.needsQuotes piece = false := by
    intro piece member
    obtain ⟨field, belongs, rfl⟩ := List.mem_map.mp member
    rw [Dialect.needsQuotes, List.any_eq_false]
    intro byte inside
    obtain ⟨other, within⟩ := bytes field belongs byte inside
    simp [other, unquoted byte within, unended.bytes byte within]
  cases pieces : (dialect.lineFields line).map encodeText with
  | nil => simp [Dialect.lineFields_eq_nil, visible] at pieces
  | cons first more =>
      rw [Dialect.joined, pieces] at joined
      rw [pieces] at plain
      have separated : more ≠ [] → dialect.delimiter ≠ dialect.quote := by
        intro several
        apply unquoted
        rw [← joined]
        cases more with
        | nil => contradiction
        | cons second more => simp [List.intercalate_cons_cons]
      obtain ⟨state, field, fields, ready, whole, scanned⟩ :=
        scanRecords_pieces dialect skipped.reverse [] first more rest plain separated
      refine ⟨state, field, fields, ready, by simpa using whole, ?_⟩
      simp only [joined] at scanned
      rw [List.reverse_append, ← scanned]
      cases begins : encodeChars line with
      | nil => exact absurd begins (encodeChars_ne_nil line visible)
      | cons byte behind =>
          exact scanRecords_begin dialect skipped.reverse byte (behind ++ rest)
            (unended.bytes byte (by simp [begins]))

theorem scanRecords_line_break (skipped rest : List UInt8) (last : UInt8)
    (isBreak : isLineBreak last = true) (other : last ≠ dialect.quote) :
    scanRecords dialect { source := skipped.reverse } (encodeChars line ++ last :: rest) =
      (⟨skipped ++ encodeChars line ++ [last], (dialect.lineFields line).map encodeText⟩ ::
        (scanRecords dialect {} rest).1, (scanRecords dialect {} rest).2) := by
  obtain ⟨state, field, fields, ready, whole, scanned⟩ :=
    scanRecords_line separating line visible unended unquoted skipped (last :: rest)
  have notDelimiter : last ≠ dialect.delimiter := by
    rintro rfl
    simp [separating.inside] at isBreak
  have ended : dialect.scan state last = (.recordStart, .endRecord) := by
    rw [scan_ready dialect state ready last other]
    simp [Dialect.scanUnquoted, notDelimiter, isBreak]
  rw [scanned, scanRecords_finish dialect _ last rest ended, ← whole]
  simp [OpenRecord.close, OpenRecord.sip]

theorem scanRecords_line_end (skipped : List UInt8) :
    scanRecords dialect { source := skipped.reverse } (encodeChars line) =
      ([⟨skipped ++ encodeChars line, (dialect.lineFields line).map encodeText⟩], []) := by
  obtain ⟨state, field, fields, ready, whole, scanned⟩ :=
    scanRecords_line separating line visible unended unquoted skipped []
  have inside : state ≠ .recordStart := by
    rcases ready with rfl | rfl <;> simp
  rw [List.append_nil] at scanned
  rw [scanned, scanRecords, if_neg inside, ← whole]
  simp [OpenRecord.close]

end Scanning

def recordsOfRows : Nat → Nat → List (List String) → List Record × Nat
  | _, blanks, [] => ([], blanks)
  | row, blanks, [] :: rest => recordsOfRows (row + 1) (blanks + 1) rest
  | row, blanks, fields :: rest =>
      let (records, trailing) := recordsOfRows (row + 1) 0 rest
      (⟨row + 1, blanks, fields⟩ :: records, trailing)

theorem recordsOfRows_visible (row blanks : Nat) (fields : List String) (rest : List (List String))
    (visible : fields ≠ []) :
    recordsOfRows row blanks (fields :: rest) =
      (⟨row + 1, blanks, fields⟩ :: (recordsOfRows (row + 1) 0 rest).1,
        (recordsOfRows (row + 1) 0 rest).2) := by
  cases fields with
  | nil => contradiction
  | cons text more => rfl

theorem recordsOfRows_indexed (row blanks limit width : Nat) (rows : List (List String)) :
    (∀ record ∈ (recordsOfRows row blanks rows).1,
        record.line ≤ limit ∧ record.fields.length ≤ width) ↔
      ∀ index fields, rows[index]? = some fields → fields ≠ [] →
        row + index + 1 ≤ limit ∧ fields.length ≤ width := by
  induction rows generalizing row blanks with
  | nil => simp [recordsOfRows]
  | cons first rest ih =>
      have moved (index : Nat) : row + (index + 1) + 1 = row + 1 + index + 1 := by omega
      by_cases blank : first = []
      · subst first
        rw [recordsOfRows, ih]
        constructor
        · rintro later (_ | index) fields found visible
          · simp [visible.symm] at found
          · rw [moved]
            exact later index fields found visible
        · intro all index fields found visible
          rw [← moved]
          exact all (index + 1) fields found visible
      · rw [recordsOfRows_visible _ _ _ _ blank, List.forall_mem_cons, ih]
        constructor
        · rintro ⟨own, later⟩ (_ | index) fields found visible
          · simp only [List.getElem?_cons_zero, Option.some.injEq] at found
            exact found ▸ own
          · rw [moved]
            exact later index fields found visible
        · intro all
          refine ⟨all 0 first rfl blank, fun index fields found visible => ?_⟩
          rw [← moved]
          exact all (index + 1) fields found visible

theorem pass_line_break (count : LineCount) (skipped body : List UInt8) (last : UInt8)
    (nonempty : body ≠ []) (inside : ∀ byte ∈ body, isLineBreak byte = false)
    (isBreak : isLineBreak last = true) :
    (count.pass (skipped ++ body ++ [last])).line = (count.pass skipped).line + 1 := by
  have head : (body ++ [last]).head? ≠ some lineFeed := by
    cases body with
    | nil => contradiction
    | cons first more =>
        intro same
        have begins := inside first (by simp)
        simp only [List.cons_append, List.head?_cons, Option.some.injEq] at same
        simp [same, isLineBreak] at begins
  have one : lineBreaks (body ++ [last]) = 1 := by
    rw [lineBreaks_concat_break body last (body.getLast nonempty) isBreak
      (List.getLast?_eq_getLast_of_ne_nil nonempty) (inside _ (List.getLast_mem nonempty)),
      lineBreaks_eq_zero body inside]
  rw [List.append_assoc, ← LineCount.pass_append, LineCount.pass_line, loneFeeds_of_head _ _ head]
  rw [lineBreaks] at one
  rw [one]

section Reading

variable {dialect : Dialect} (separating : dialect.Separating)

include separating

theorem readOn_last (line : List Char) (visible : line ≠ []) (unended : Unended line)
    (unquoted : ∀ byte ∈ encodeChars line, byte ≠ dialect.quote) {terminator : Terminator}
    {point : ReadingPoint} {skipped : List UInt8} {row blanks : Nat}
    (awaiting : Awaiting terminator point.lines skipped blanks)
    (reached : (point.lines.pass skipped).line = row + 1) :
    readOn dialect point skipped (encodeChars line) =
      ⟨[⟨row + 1, blanks, dialect.lineFields line⟩], .ok 0⟩ := by
  obtain ⟨first, more, begins⟩ := List.exists_cons_of_ne_nil (encodeChars_ne_nil line visible)
  have placed := place_eq point.lines (skipped ++ encodeChars line)
  rw [takeWhile_skipped skipped _ first more awaiting.breaks begins
    (unended.bytes first (by simp [begins])), awaiting.blanksSince, reached] at placed
  rw [readOn, scanRecords_line_end separating line visible unended unquoted]
  simp only [readFrom, decodeFields_encodeText, placed]
  simp [ReadingPoint.next, LineCount.pass, LineCount.blanksSince]

theorem readOn_line (line : List Char) (visible : line ≠ []) (unended : Unended line)
    (next : Terminator) (rest : List UInt8)
    (unquoted : ∀ byte ∈ encodeChars line ++ next.bytes, byte ≠ dialect.quote)
    {terminator : Terminator} {point : ReadingPoint} {skipped : List UInt8} {row blanks : Nat}
    (awaiting : Awaiting terminator point.lines skipped blanks)
    (reached : (point.lines.pass skipped).line = row + 1) :
    ∃ (later : ReadingPoint) (behind : List UInt8), Awaiting next later.lines behind 0 ∧
      (later.lines.pass behind).line = row + 1 + 1 ∧
      readOn dialect point skipped (encodeChars line ++ (next.bytes ++ rest)) =
        ⟨⟨row + 1, blanks, dialect.lineFields line⟩ :: (readOn dialect later behind rest).records,
          (readOn dialect later behind rest).ending⟩ := by
  obtain ⟨last, behind, split⟩ := next.bytes_eq_cons
  obtain ⟨first, more, begins⟩ := List.exists_cons_of_ne_nil (encodeChars_ne_nil line visible)
  have breaks := next.isLineBreak_of_mem
  rw [split] at breaks unquoted
  have isBreak := breaks last (by simp)
  have scanned := scanRecords_line_break separating line visible unended
    (fun byte member => unquoted byte (List.mem_append_left _ member)) skipped (behind ++ rest) last
    isBreak (unquoted last (by simp))
  obtain ⟨later, passed, read⟩ := readOn_body awaiting (dialect.lineFields line) _ first more begins
    (unended.bytes first (by simp [begins])) last behind rest
    (fun byte member => breaks byte (by simp [member])) scanned
  have resting := awaiting_record next point.lines (skipped ++ encodeChars line) last behind split
  have counted := pass_line_break point.lines skipped (encodeChars line) last
    (encodeChars_ne_nil line visible) unended.bytes isBreak
  rw [← passed] at resting
  refine ⟨later, behind, resting, ?_, ?_⟩
  · rw [resting.line, passed, counted, reached]
  · rw [split, List.cons_append, read, reached]

theorem readOn_text (text : List Char) (unquoted : ∀ byte ∈ encodeChars text, byte ≠ dialect.quote)
    (point : ReadingPoint) (skipped : List UInt8) (row blanks : Nat)
    (awaiting : Awaiting .cr point.lines skipped blanks)
    (reached : (point.lines.pass skipped).line = row + 1)
    (apart : (point.lines.pass skipped).afterReturn = true → text.head? ≠ some '\n') :
    let read := recordsOfRows row blanks ((textLines text).map dialect.lineFields)
    readOn dialect point skipped (encodeChars text) = ⟨read.1, .ok read.2⟩ := by
  induction size : text.length using Nat.strongRecOn
    generalizing text point skipped row blanks with
  | ind length ih =>
      rcases textLines_cases text with ⟨rfl, lines⟩ | ⟨visible, unended, lines⟩ |
        ⟨line, terminator, rest, unended, rfl, lines, behindReturn⟩
      · exact readOn_nil awaiting
      · rw [lines, List.map_singleton, recordsOfRows_visible _ _ _ _
          ((dialect.lineFields_eq_nil text).not.mpr visible)]
        exact readOn_last separating text visible unended unquoted awaiting reached
      · rw [encodeChars_append, encodeChars_append, encodeChars_terminator] at unquoted ⊢
        rw [lines, List.map_cons]
        have later : ∀ byte ∈ encodeChars rest, byte ≠ dialect.quote := by
          intro byte member
          exact unquoted byte (by simp [member])
        have shorter := length_rest_lt line rest terminator
        rw [size] at shorter
        by_cases visible : line = []
        · subst line
          have other : (point.lines.pass skipped).afterReturn = true → terminator ≠ .lf := by
            rintro after rfl
            exact apart after rfl
          have next := awaiting.skip terminator other
          have skippedLine := awaiting.line
          have nextLine := next.line
          rw [show encodeChars [] = [] from rfl, List.nil_append, readOn_blank]
          apply ih rest.length shorter rest later point _ (row + 1) (blanks + 1) next.returns
          · omega
          · intro after
            exact behindReturn (next.paired after)
          · rfl
        · obtain ⟨next, behind, resting, nextLine, read⟩ := readOn_line separating line visible unended
            terminator (encodeChars rest) (fun byte member => unquoted byte (by
              rw [← List.append_assoc]
              exact List.mem_append_left _ member)) awaiting reached
          have onward := ih rest.length shorter rest later next behind (row + 1) 0 resting.returns
            nextLine (fun after => behindReturn (resting.paired after)) rfl
          rw [recordsOfRows_visible _ _ _ _ ((dialect.lineFields_eq_nil line).not.mpr visible), read,
            onward]

theorem readDocument_text (text : String)
    (unquoted : ∀ byte ∈ encodeText text, byte ≠ dialect.quote)
    (noMark : ¬byteOrderMark <+: encodeText text) :
    let read := recordsOfRows 0 0 ((textLines text.toList).map dialect.lineFields)
    readDocument dialect (encodeText text) = ⟨read.1, .ok read.2⟩ := by
  have read := readOn_text separating text.toList unquoted {} [] 0 0 (awaiting_start .cr) rfl
    (by simp [LineCount.pass])
  rw [readDocument, rawRecords, splitMark_of_no_mark _ noMark]
  exact read

end Reading

end PostfixSheet
