import PostfixSheet.Command.Files

/-! What changes in a tree of files when one file is created or written. Paths lead to the same places as
before, apart from those that would lead through the new file as if it were a directory. -/

namespace PostfixSheet

namespace Files

/-- A path to a place where a file can be created: no directory, and no device. -/
structure Creates (files : Files) (path : String) (place : Place) : Prop where
  followed : files.follow path (writtenNames path) = .ok place
  noDirectory : files.isDirectory place = false
  noEmptyDevice : emptyDevices.contains place = false
  noFullDevice : place ≠ fullDevice

/-- A path that takes a place for a directory on its way. -/
def LeadsThrough (files : Files) (path : String) (place : Place) : Prop :=
  ∃ front name behind, pathNames path = front ++ name :: behind ∧ files.follow path front = .ok place

def Inside (files : Files) (place : Place) : Prop :=
  ∀ above, above <+: place → above ≠ place → files.isDirectory above = true

def origin (files : Files) (path : String) : Place :=
  if path.toList.head? = some '/' then [] else files.workingDirectory

def step (files : Files) (place : Place) (name : String) : Except PathFault Place :=
  if (files.content? place).isSome then .error .notADirectory
  else if !files.isDirectory place then .error .notFound
  else if name = "" ∨ name = "." then .ok place
  else if name = ".." then .ok place.dropLast
  else if 255 < name.utf8ByteSize then .error .nameTooLong
  else .ok (place ++ [name])

section Walks

variable (files : Files)

theorem walk_cons (place : Place) (name : String) (rest : List String) :
    files.walk place (name :: rest) = (files.step place name).bind (files.walk · rest) := by
  simp only [walk, step]
  repeat' split
  all_goals rfl

theorem walk_append (start : Place) (front behind : List String) :
    files.walk start (front ++ behind) = (files.walk start front).bind (files.walk · behind) := by
  induction front generalizing start with
  | nil => rfl
  | cons name rest ih =>
      rw [List.cons_append, walk_cons, walk_cons]
      cases files.step start name with
      | error fault => rfl
      | ok next => exact ih next

theorem step_cases {place next : Place} {name : String} (stepped : files.step place name = .ok next) :
    files.isDirectory place = true ∧
      ((name = "" ∨ name = ".") ∧ next = place ∨ name = ".." ∧ next = place.dropLast ∨
        ¬ (name = "" ∨ name = ".") ∧ next = place ++ [name]) := by
  simp only [step] at stepped
  split at stepped
  · simp at stepped
  · split at stepped
    · simp at stepped
    · rename_i directory
      refine ⟨by simpa using directory, ?_⟩
      split at stepped
      · rename_i stays
        exact Or.inl ⟨stays, (Except.ok.inj stepped).symm⟩
      · rename_i leaves
        split at stepped
        · rename_i up
          exact Or.inr (Or.inl ⟨up, (Except.ok.inj stepped).symm⟩)
        · split at stepped
          · simp at stepped
          · exact Or.inr (Or.inr ⟨leaves, (Except.ok.inj stepped).symm⟩)

theorem step_of_not_isDirectory {place : Place} (noDirectory : files.isDirectory place = false)
    (name : String) :
    files.step place name =
      .error (if (files.content? place).isSome then .notADirectory else .notFound) := by
  simp only [step, noDirectory]
  split <;> rfl

theorem walk_through {start place : Place} (noDirectory : files.isDirectory place = false)
    {front : List String} (reached : files.walk start front = .ok place) (name : String)
    (behind : List String) :
    files.walk start (front ++ name :: behind) =
      .error (if (files.content? place).isSome then .notADirectory else .notFound) := by
  rw [walk_append, reached]
  simp only [Except.bind, walk_cons, step_of_not_isDirectory files noDirectory]

theorem isDirectory_iff {place : Place} :
    files.isDirectory place = true ↔
      (place <+: files.workingDirectory ∨ ∃ name ∈ rootDirectories, place = [name]) ∨
        ∃ entry ∈ files.entries, place <+: entry.1 ∧ place.length ≠ entry.1.length := by
  simp only [isDirectory, Bool.or_eq_true, List.any_eq_true, Bool.and_eq_true, beq_iff_eq, bne_iff_ne,
    List.isPrefixOf_iff_prefix]

theorem isDirectory_above {above place : Place} (isAbove : above <+: place)
    (directory : files.isDirectory place = true) : files.isDirectory above = true := by
  rw [isDirectory_iff] at directory ⊢
  rcases directory with (working | ⟨name, root, same⟩) | ⟨entry, member, isFront, shorter⟩
  · exact Or.inl (Or.inl (isAbove.trans working))
  · rw [same, List.prefix_cons_iff] at isAbove
    rcases isAbove with rfl | ⟨rest, rfl, isNil⟩
    · exact Or.inl (Or.inl List.nil_prefix)
    · rw [List.prefix_nil.mp isNil]
      exact Or.inl (Or.inr ⟨name, root, rfl⟩)
  · have lengths := isAbove.length_le
    have bound := isFront.length_le
    exact Or.inr ⟨entry, member, isAbove.trans isFront, by omega⟩

theorem inside_of_isDirectory {place : Place} (directory : files.isDirectory place = true) :
    files.Inside place :=
  fun _ isAbove _ => files.isDirectory_above isAbove directory

theorem inside_dropLast {place : Place} (inside : files.Inside place) :
    files.Inside place.dropLast := by
  intro above isAbove different
  have isFront := isAbove.trans (List.dropLast_prefix place)
  refine inside above isFront ?_
  rintro rfl
  have lengths := isAbove.length_le
  rw [List.length_dropLast] at lengths
  have empty : above = [] := List.eq_nil_of_length_eq_zero (by omega)
  exact different (by rw [empty]; rfl)

theorem inside_concat {place : Place} (name : String) (directory : files.isDirectory place = true) :
    files.Inside (place ++ [name]) := by
  intro above isAbove different
  rcases List.prefix_concat_iff.mp isAbove with same | isFront
  · exact (different same).elim
  · exact files.isDirectory_above isFront directory

theorem inside_step {start next : Place} {name : String} (inside : files.Inside start)
    (stepped : files.step start name = .ok next) : files.Inside next := by
  obtain ⟨directory, ⟨_, rfl⟩ | ⟨_, rfl⟩ | ⟨_, rfl⟩⟩ := files.step_cases stepped
  · exact inside
  · exact files.inside_dropLast inside
  · exact files.inside_concat name directory

theorem inside_walk {start place : Place} (names : List String) (inside : files.Inside start)
    (walked : files.walk start names = .ok place) : files.Inside place := by
  induction names generalizing start with
  | nil => exact Except.ok.inj walked ▸ inside
  | cons name rest ih =>
      rw [walk_cons] at walked
      cases stepped : files.step start name with
      | error fault => simp [stepped, Except.bind] at walked
      | ok next =>
          rw [stepped] at walked
          exact ih (files.inside_step inside stepped) walked

theorem inside_origin (path : String) : files.Inside (files.origin path) := by
  unfold origin
  split
  · intro above isAbove different
    exact (different (List.prefix_nil.mp isAbove)).elim
  · apply inside_of_isDirectory
    simp [isDirectory]

theorem follow_eq_ok {path : String} {names : List String} {place : Place} :
    files.follow path names = .ok place ↔
      path ≠ "" ∧ path.utf8ByteSize < 4096 ∧ files.walk (files.origin path) names = .ok place := by
  unfold follow origin
  split
  · simp_all
  · split
    · simp
      omega
    · simp_all

end Walks

section Put

variable {files : Files} {place : Place} (bytes : List UInt8)

theorem lookup_filter_ne (entries : List (Place × List UInt8)) {other : Place}
    (different : other ≠ place) :
    (entries.filter fun entry => entry.1 != place).lookup other = entries.lookup other := by
  induction entries with
  | nil => rfl
  | cons entry rest ih =>
      obtain ⟨key, content⟩ := entry
      by_cases removed : key = place
      · subst removed
        simp [List.lookup_cons, ih, beq_eq_false_iff_ne.mpr different]
      · by_cases same : other = key
        · subst same
          simp [removed]
        · simp [List.lookup_cons, removed, beq_eq_false_iff_ne.mpr same, ih]

@[simp] theorem put_workingDirectory :
    (files.put place bytes).workingDirectory = files.workingDirectory := by
  simp only [put]
  split <;> rfl

@[simp] theorem origin_put (path : String) :
    (files.put place bytes).origin path = files.origin path := by
  simp only [origin, put_workingDirectory]

theorem content?_put (noDevice : emptyDevices.contains place = false) (other : Place) :
    (files.put place bytes).content? other =
      if other = place then some bytes else files.content? other := by
  simp only [put, noDevice, Bool.false_eq_true, if_false, content?]
  by_cases same : other = place
  · subst same
    simp only [noDevice, Bool.false_eq_true, if_false, if_true, List.lookup_cons_self]
  · simp only [same, if_false, List.lookup_cons, beq_eq_false_iff_ne.mpr same,
      lookup_filter_ne files.entries same]

theorem isDirectory_put (noDevice : emptyDevices.contains place = false)
    (inside : files.Inside place) (other : Place) :
    (files.put place bytes).isDirectory other = files.isDirectory other := by
  simp only [put, noDevice, Bool.false_eq_true, if_false]
  rw [Bool.eq_iff_iff]
  constructor
  · intro directory
    by_cases above : other <+: place ∧ other ≠ place
    · exact inside other above.1 above.2
    · rw [isDirectory_iff] at directory ⊢
      refine directory.imp_right ?_
      rintro ⟨entry, member, isFront, shorter⟩
      rcases List.mem_cons.mp member with rfl | kept
      · exact (above ⟨isFront, fun same => shorter (by rw [same])⟩).elim
      · exact ⟨entry, (List.mem_filter.mp kept).1, isFront, shorter⟩
  · intro directory
    rw [isDirectory_iff] at directory ⊢
    refine directory.imp_right ?_
    rintro ⟨entry, member, isFront, shorter⟩
    by_cases replaced : entry.1 = place
    · exact ⟨(place, bytes), List.mem_cons_self, replaced ▸ isFront, replaced ▸ shorter⟩
    · exact ⟨entry, List.mem_cons_of_mem _ (List.mem_filter.mpr ⟨member, by simpa using replaced⟩),
        isFront, shorter⟩

theorem put_put (later : List UInt8) :
    (files.put place bytes).put place later = files.put place later := by
  simp only [put]
  split
  · rfl
  · simp [List.filter_filter]

theorem step_put (noDevice : emptyDevices.contains place = false) (inside : files.Inside place)
    {start : Place} (elsewhere : start ≠ place) (name : String) :
    (files.put place bytes).step start name = files.step start name := by
  simp only [step, content?_put bytes noDevice, isDirectory_put bytes noDevice inside,
    if_neg elsewhere]

theorem walk_put (noDevice : emptyDevices.contains place = false) (inside : files.Inside place)
    (names : List String) (start : Place)
    (around : ∀ front name behind, names = front ++ name :: behind →
      files.walk start front ≠ .ok place) :
    (files.put place bytes).walk start names = files.walk start names := by
  induction names generalizing start with
  | nil => rfl
  | cons name rest ih =>
      have elsewhere : start ≠ place := by
        rintro rfl
        exact around [] name rest rfl rfl
      rw [walk_cons, walk_cons, step_put bytes noDevice inside elsewhere]
      cases stepped : files.step start name with
      | error fault => rfl
      | ok next =>
          refine ih next fun front other behind same => ?_
          have later := around (name :: front) other behind (by rw [same]; rfl)
          rwa [walk_cons, stepped] at later

theorem around_of_walk {start last : Place} (noDirectory : files.isDirectory place = false)
    {names : List String} (walked : files.walk start names = .ok last) (front : List String)
    (name : String) (behind : List String) (split : names = front ++ name :: behind) :
    files.walk start front ≠ .ok place := by
  intro reached
  rw [split, files.walk_through noDirectory reached] at walked
  simp at walked

end Put

theorem isDirectory_of_walk_dot {files : Files} {start place : Place} {names : List String}
    (walked : files.walk start (names ++ ["."]) = .ok place) : files.isDirectory place = true := by
  rw [walk_append] at walked
  cases reached : files.walk start names with
  | error fault => simp [reached, Except.bind] at walked
  | ok next =>
      simp only [reached, Except.bind, walk_cons] at walked
      cases stepped : files.step next "." with
      | error fault => simp [stepped] at walked
      | ok last =>
          obtain ⟨directory, ⟨_, rfl⟩ | ⟨up, _⟩ | ⟨leaves, _⟩⟩ := files.step_cases stepped
          · simp only [stepped, walk, Except.ok.injEq] at walked
            exact walked ▸ directory
          · simp at up
          · exact (leaves (Or.inr rfl)).elim

namespace Creates

variable {files : Files} {path : String} {place : Place} (creates : files.Creates path place)
include creates

theorem names_eq : writtenNames path = pathNames path := by
  by_cases slash : (pathNames path).getLast? = some ""
  · have followed := creates.followed
    simp only [writtenNames, slash, if_true] at followed
    obtain ⟨_, _, walked⟩ := files.follow_eq_ok.mp followed
    have noDirectory := creates.noDirectory
    rw [isDirectory_of_walk_dot walked] at noDirectory
    simp at noDirectory
  · simp [writtenNames, slash]

theorem inside : files.Inside place := by
  obtain ⟨_, _, walked⟩ := files.follow_eq_ok.mp creates.followed
  exact files.inside_walk _ (files.inside_origin path) walked

theorem write_eq (bytes : List UInt8) : files.write path bytes = .ok (files.put place bytes) := by
  simp [write, creates.followed, creates.noDirectory, creates.noFullDevice]

theorem put_followed (bytes : List UInt8) {other : String} {names : List String} {last : Place}
    (followed : files.follow other names = .ok last) :
    (files.put place bytes).follow other names = .ok last := by
  obtain ⟨visible, short, walked⟩ := files.follow_eq_ok.mp followed
  refine (Files.follow_eq_ok _).mpr ⟨visible, short, ?_⟩
  rw [origin_put, walk_put bytes creates.noEmptyDevice creates.inside]
  · exact walked
  · exact around_of_walk creates.noDirectory walked

theorem put (bytes : List UInt8) : (files.put place bytes).Creates path place where
  followed := creates.put_followed bytes creates.followed
  noDirectory := by
    rw [isDirectory_put bytes creates.noEmptyDevice creates.inside, creates.noDirectory]
  noEmptyDevice := creates.noEmptyDevice
  noFullDevice := creates.noFullDevice

theorem put_follow (bytes : List UInt8) {other : String} (around : ¬ files.LeadsThrough other place) :
    (files.put place bytes).follow other (pathNames other) = files.follow other (pathNames other) := by
  by_cases visible : other = ""
  · simp [follow, visible]
  · by_cases short : other.utf8ByteSize < 4096
    · simp only [follow, visible, if_false, Nat.not_le.mpr short, put_workingDirectory]
      refine walk_put bytes creates.noEmptyDevice creates.inside _ _ ?_
      intro front name behind names reached
      exact around ⟨front, name, behind, names, files.follow_eq_ok.mpr ⟨visible, short, reached⟩⟩
    · simp [follow, visible, Nat.not_lt.mp short]

theorem read_through {other : String} (through : files.LeadsThrough other place) :
    files.read other =
      .error (if (files.content? place).isSome then .notADirectory else .notFound) := by
  obtain ⟨front, name, behind, names, reached⟩ := through
  obtain ⟨visible, short, walked⟩ := files.follow_eq_ok.mp reached
  have stopped := files.walk_through creates.noDirectory walked name behind
  simp only [origin] at stopped
  simp only [read, follow, visible, if_false, Nat.not_le.mpr short, names, stopped]

theorem put_through (bytes : List UInt8) {other : String} (through : files.LeadsThrough other place) :
    (files.put place bytes).LeadsThrough other place := by
  obtain ⟨front, name, behind, names, reached⟩ := through
  exact ⟨front, name, behind, names, creates.put_followed bytes reached⟩

theorem put_read_through (bytes : List UInt8) {other : String}
    (through : files.LeadsThrough other place) :
    (files.put place bytes).read other = .error .notADirectory := by
  rw [(creates.put bytes).read_through (creates.put_through bytes through),
    content?_put bytes creates.noEmptyDevice]
  simp

theorem put_read (bytes : List UInt8) {other : String} (around : ¬ files.LeadsThrough other place)
    (different : files.follow other (pathNames other) ≠ .ok place) :
    (files.put place bytes).read other = files.read other := by
  simp only [read, creates.put_follow bytes around]
  cases target : files.follow other (pathNames other) with
  | error fault => rfl
  | ok last =>
      have elsewhere : last ≠ place := by
        rintro rfl
        exact different target
      simp only [content?_put bytes creates.noEmptyDevice, if_neg elsewhere,
        isDirectory_put bytes creates.noEmptyDevice creates.inside]

theorem put_read_self (bytes : List UInt8) {other : String}
    (same : files.follow other (pathNames other) = .ok place) :
    (files.put place bytes).read other = .ok bytes := by
  simp only [read, creates.put_followed bytes same, content?_put bytes creates.noEmptyDevice, if_true]

end Creates

end Files

end PostfixSheet
