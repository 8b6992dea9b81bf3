import Mathlib.Data.List.TakeDrop
import Mathlib.Data.List.TakeWhile
import NativeGlue.Command.Run
import NativeGlue.Proofs.Traversal

/-!
# Command lines in any order

The arguments of the command that generates come in groups, and each group makes
one setting.  A group leaves the reader at rest: what is held back can be
checked, and amounts to the settings made so far.  So the groups are read as
their settings are made one after the other, and settings that can be made in
one order can be made in every order, to the same effect.
-/

namespace NativeGlue.Command

/-! ## Settings -/

/-- What one group of arguments says. -/
inductive Setting where
  | schema (path : String)
  | value (option : ValueOption) (text : String)
  | rejectDuplicates
  | noArgComments
  | verbose
deriving DecidableEq

namespace Setting

/-- Makes a setting. -/
def make (g : Given) : Setting → Except UsageError Given
  | schema path => g.setSchema path
  | value option text => g.setValue text option
  | rejectDuplicates => g.setFlag .generate .rejectDuplicates
  | noArgComments => g.setFlag .generate .noArgComments
  | verbose => g.setFlag .generate .verbose

/-- A setting has not been made yet, if it can be made only once, and has a
value that it may have. -/
def Open (g : Given) : Setting → Prop
  | schema path => g.schema = none ∧ path.isEmpty = false
  | value .library _ => g.library = none
  | value .specName _ => g.specName = none
  | value .outputDir directory => g.outputDir = none ∧ directory.isEmpty = false
  | rejectDuplicates => g.rejectDuplicates = false
  | noArgComments => g.noArgComments = false
  | verbose => True

/-- What is given once a setting is made. -/
def put (g : Given) : Setting → Given
  | schema path => { g with schema := some path }
  | value .library name => { g with library := some name }
  | value .specName name => { g with specName := some name }
  | value .outputDir directory => { g with outputDir := some directory }
  | rejectDuplicates => { g with rejectDuplicates := true }
  | noArgComments => { g with noArgComments := true }
  | verbose => { g with verbose := min (g.verbose + 1) maxVerbose }

end Setting

theorem once_eq_ok_iff
    {before : Option String} {mayBeEmpty : Bool} {value : String}
    {after : Option String} :
    once before mayBeEmpty value = .ok after ↔
      before = none ∧ (value.isEmpty = true → mayBeEmpty = true) ∧
        some value = after := by
  unfold once
  cases before <;> cases value.isEmpty <;> cases mayBeEmpty <;> simp

theorem Setting.make_eq_ok_iff {a : Setting} {g g' : Given} :
    a.make g = .ok g' ↔ a.Open g ∧ a.put g = g' := by
  cases a with
  | schema path =>
      simp [make, Open, put, Given.setSchema, bind_eq_ok_iff, once_eq_ok_iff,
        pure, Except.pure, and_assoc]
  | value option text =>
      cases option <;>
        simp [make, Open, put, Given.setValue, bind_eq_ok_iff, once_eq_ok_iff,
          pure, Except.pure, and_assoc]
  | rejectDuplicates =>
      cases h : g.rejectDuplicates <;> simp [make, Open, put, Given.setFlag, h]
  | noArgComments =>
      cases h : g.noArgComments <;> simp [make, Open, put, Given.setFlag, h]
  | verbose => simp [make, Open, put, Given.setFlag]

@[simp] theorem Setting.schema_put_value
    (g : Given) (option : ValueOption) (text : String) :
    ((Setting.value option text).put g).schema = g.schema := by
  cases option <;> rfl

/-- Two settings of which one can be made after the other can be made the other
way round.  Settings of one kind get in each other's way, unless they raise the
verbosity, and settings of two kinds do not touch each other. -/
theorem Setting.open_swap
    {a b : Setting} {g : Given} (ha : a.Open g) (hb : b.Open (a.put g)) :
    b.Open g ∧ a.Open (b.put g) ∧ a.put (b.put g) = b.put (a.put g) := by
  rcases a with _ | ⟨_ | _ | _, _⟩ | _ | _ | _ <;>
    rcases b with _ | ⟨_ | _ | _, _⟩ | _ | _ | _ <;>
    simp_all [Open, put]

theorem foldlM_make_cons_iff
    {a : Setting} {rest : List Setting} {g g' : Given} :
    (a :: rest).foldlM Setting.make g = .ok g' ↔
      a.Open g ∧ rest.foldlM Setting.make (a.put g) = .ok g' := by
  rw [List.foldlM_cons, bind_eq_ok_iff]
  simp only [Setting.make_eq_ok_iff]
  constructor
  · rintro ⟨_, ⟨hopen, rfl⟩, hrest⟩
    exact ⟨hopen, hrest⟩
  · rintro ⟨hopen, hrest⟩
    exact ⟨_, ⟨hopen, rfl⟩, hrest⟩

/-- Settings that can be made in one order can be made in every order, to the
same effect. -/
theorem foldlM_make_perm
    {xs ys : List Setting} (hperm : xs.Perm ys) {g g' : Given}
    (hxs : xs.foldlM Setting.make g = .ok g') :
    ys.foldlM Setting.make g = .ok g' := by
  induction hperm generalizing g with
  | nil => exact hxs
  | cons a _ ih =>
      obtain ⟨hopen, hrest⟩ := foldlM_make_cons_iff.mp hxs
      exact foldlM_make_cons_iff.mpr ⟨hopen, ih hrest⟩
  | swap a b xs =>
      obtain ⟨hb, hxs⟩ := foldlM_make_cons_iff.mp hxs
      obtain ⟨ha, hrest⟩ := foldlM_make_cons_iff.mp hxs
      obtain ⟨hfirst, hsecond, hput⟩ := Setting.open_swap hb ha
      rw [← hput] at hrest
      exact foldlM_make_cons_iff.mpr
        ⟨hfirst, foldlM_make_cons_iff.mpr ⟨hsecond, hrest⟩⟩
  | trans _ _ ih ih' => exact ih' (ih hxs)

/-! ## Groups of arguments -/

/-- An argument that is not taken for an option. -/
def Standalone (text : String) : Prop :=
  text = "-" ∨ text.toList.head? ≠ some '-'

/-- The long form of an option. -/
def ValueOption.long : ValueOption → String
  | library => "--library"
  | specName => "--spec-name"
  | outputDir => "--output-dir"

/-- The short form of an option, if it has one. -/
def ValueOption.short? : ValueOption → Option String
  | library => some "-l"
  | specName => none
  | outputDir => some "-o"

/-- The groups of arguments that make a setting. -/
inductive Writes : Setting → List String → Prop where
  | schema {path : String} (hpath : Standalone path) :
      Writes (.schema path) [path]
  | short {option : ValueOption} {word text : String}
      (hword : option.short? = some word) (htext : Standalone text) :
      Writes (.value option text) [word, text]
  | long (option : ValueOption) {text : String} (htext : Standalone text) :
      Writes (.value option text) [option.long, text]
  | joined (option : ValueOption) (text : String) :
      Writes (.value option text) [option.long ++ "=" ++ text]
  | rejectDuplicates : Writes .rejectDuplicates ["--reject-duplicates"]
  | noArgComments : Writes .noArgComments ["--no-arg-comments"]
  | verbose : Writes .verbose ["--verbose"]
  | shortVerbose : Writes .verbose ["-v"]

theorem Standalone.ofText {text : String} (h : Standalone text) :
    Word.ofText text = .plain := by
  unfold Word.ofText
  rcases h with rfl | h
  · rw [show "-".toList = ['-'] from String.toList_ofList]
    rfl
  · generalize text.toList = cs at h
    split
    · simp at h
    · simp at h
    · simp at h
    · rfl

theorem Word.ofText_short
    {text : String} {c : Char} (htext : text = String.ofList ['-', c])
    (hc : c ≠ '-') :
    Word.ofText text = .short [c] := by
  rw [htext, Word.ofText, String.toList_ofList]
  split <;> simp_all

theorem Word.ofText_dashes {text : String} {c : Char} {cs : List Char}
    (htext : text = String.ofList ('-' :: '-' :: c :: cs)) :
    Word.ofText text = .ofLong (c :: cs) := by
  rw [htext, Word.ofText, String.toList_ofList]
  rfl

theorem Word.ofLong_name {cs : List Char} (hcs : '=' ∉ cs) :
    Word.ofLong cs = .long (String.ofList cs) none := by
  have hname : ∀ c ∈ cs, (c != '=') = true :=
    fun c hc => bne_iff_ne.mpr fun h => hcs (h ▸ hc)
  unfold Word.ofLong
  rw [List.span_eq_takeWhile_dropWhile, List.takeWhile_eq_self_iff.mpr hname,
    List.dropWhile_eq_nil_iff.mpr hname]

theorem Word.ofLong_joined
    {cs : List Char} (hcs : '=' ∉ cs) (value : List Char) :
    Word.ofLong (cs ++ '=' :: value) =
      .long (String.ofList cs) (some (String.ofList value)) := by
  have hname : ∀ c ∈ cs, (c != '=') = true :=
    fun c hc => bne_iff_ne.mpr fun h => hcs (h ▸ hc)
  unfold Word.ofLong
  rw [List.span_eq_takeWhile_dropWhile, List.takeWhile_append_of_pos hname,
    List.dropWhile_append_of_pos hname, List.takeWhile_cons_of_neg (by simp),
    List.dropWhile_cons_of_neg (by simp), List.append_nil]

/-- A long form stands for its name, without a value or with the value joined to
it. -/
theorem Word.ofText_long
    {text name : String} {c : Char} {cs : List Char}
    (htext : text = String.ofList ('-' :: '-' :: c :: cs))
    (hname : name = String.ofList (c :: cs)) (hcs : '=' ∉ c :: cs) :
    Word.ofText text = .long name none ∧
      ∀ value, Word.ofText (text ++ "=" ++ value) =
        .long name (some value) := by
  constructor
  · rw [Word.ofText_dashes htext, Word.ofLong_name hcs, hname]
  · intro value
    have hjoined : text ++ "=" ++ value =
        String.ofList ('-' :: '-' :: c :: (cs ++ '=' :: value.toList)) := by
      have heq : "=".toList = ['='] := String.toList_ofList
      rw [← String.toList_inj, String.toList_ofList, String.toList_append,
        String.toList_append, htext, String.toList_ofList, heq]
      simp
    rw [Word.ofText_dashes hjoined, ← List.cons_append, Word.ofLong_joined hcs,
      hname, String.ofList_toList]

theorem ValueOption.ofText_long (option : ValueOption) :
    ∃ name,
      (Grammar.generate.longNames.lookup name = some (.value option)) ∧
      Word.ofText option.long = .long name none ∧
      ∀ value, Word.ofText (option.long ++ "=" ++ value) =
        .long name (some value) := by
  cases option with
  | library => exact ⟨"library", rfl, Word.ofText_long rfl rfl (by decide)⟩
  | specName => exact ⟨"spec-name", rfl, Word.ofText_long rfl rfl (by decide)⟩
  | outputDir => exact ⟨"output-dir", rfl, Word.ofText_long rfl rfl (by decide)⟩

/-! ## Reading groups -/

/-- The reader is at rest: what it holds back can be checked, and amounts to
what is given. -/
structure State.RestsAt (s : State) (g : Given) : Prop where
  reading : s.terminated = false
  settled : s.settle = .ok g
  schemaMet : s.schemaMet = g.schema.isSome

namespace State

variable {s : State} {g g' : Given}

theorem take_of_plain {text : String} (hs : s.terminated = false)
    (htext : Word.ofText text = .plain) :
    take .generate s text = s.takePlain text := by
  rw [take, hs, htext]
  rfl

theorem take_of_long
    {text name : String} {value : Option String} (hs : s.terminated = false)
    (htext : Word.ofText text = .long name value) :
    take .generate s text = takeLong .generate s name value := by
  rw [take, hs, htext]
  rfl

theorem take_of_short
    {text : String} {letters : List Char} (hs : s.terminated = false)
    (htext : Word.ofText text = .short letters) :
    take .generate s text = takeShort .generate s letters := by
  rw [take, hs, htext]
  rfl

/-- No option waits for a value when the reader is at rest. -/
theorem RestsAt.takePlain_eq (hs : s.RestsAt g) (text : String) :
    s.takePlain text = s.takePositional text := by
  have hsettled := hs.settled
  unfold takePlain
  split
  case h_1 option hpending =>
    rw [settle, hpending] at hsettled
    cases hsettled
  case h_2 => rfl

theorem RestsAt.takeSchema {path : String} (hs : s.RestsAt g)
    (hmake : (Setting.schema path).make g = .ok g') :
    ∃ s', s.takePlain path = .ok s' ∧ s'.RestsAt g' := by
  obtain ⟨⟨hnone, -⟩, rfl⟩ := Setting.make_eq_ok_iff.mp hmake
  have hmet : s.schemaMet = false := by
    rw [hs.schemaMet, hnone]
    rfl
  refine ⟨{ s with given := g, pending := .schema path, schemaMet := true },
    ?_, ⟨hs.reading, hmake, rfl⟩⟩
  rw [hs.takePlain_eq, takePositional, hmet, hs.settled]
  rfl

/-- A value that stands apart is held back, and is checked as it would be at
once. -/
theorem RestsAt.takeApart
    {option : ValueOption} {word text : String} (hs : s.RestsAt g)
    (hmake : (Setting.value option text).make g = .ok g')
    (hword : take .generate s word = s.takeValue option none)
    (htext : Standalone text) :
    ∃ s', [word, text].foldlM (take .generate) s = .ok s' ∧ s'.RestsAt g' := by
  obtain ⟨-, rfl⟩ := Setting.make_eq_ok_iff.mp hmake
  have hwaiting : take .generate s word =
      .ok { s with given := g, pending := .waiting option } := by
    rw [hword, takeValue, hs.settled]
    rfl
  have hvalue :
      take .generate { s with given := g, pending := .waiting option } text =
        .ok { s with given := g, pending := .value option text } :=
    take_of_plain hs.reading htext.ofText
  refine ⟨{ s with given := g, pending := .value option text },
    bind_eq_ok_iff.mpr ⟨_, hwaiting, bind_eq_ok_iff.mpr ⟨_, hvalue, rfl⟩⟩,
    ⟨hs.reading, hmake, ?_⟩⟩
  rw [Setting.schema_put_value]
  exact hs.schemaMet

theorem RestsAt.takeJoined
    {option : ValueOption} {text : String} (hs : s.RestsAt g)
    (hmake : (Setting.value option text).make g = .ok g') :
    ∃ s', s.takeValue option (some text) = .ok s' ∧ s'.RestsAt g' := by
  have hvalue : g.setValue text option = .ok g' := hmake
  obtain ⟨-, rfl⟩ := Setting.make_eq_ok_iff.mp hmake
  refine ⟨{ s with
      given := (Setting.value option text).put g
      pending := .nothing }, ?_, ⟨hs.reading, rfl, ?_⟩⟩
  · exact bind_eq_ok_iff.mpr ⟨g, hs.settled,
      bind_eq_ok_iff.mpr ⟨_, hvalue, rfl⟩⟩
  · rw [Setting.schema_put_value]
    exact hs.schemaMet

theorem RestsAt.takeFlag
    {opt : Opt} (hs : s.RestsAt g) (hflag : g.setFlag .generate opt = .ok g')
    (hschema : g'.schema = g.schema) :
    ∃ s', s.takeFlag .generate opt = .ok s' ∧ s'.RestsAt g' := by
  refine ⟨{ s with given := g', pending := .nothing }, ?_,
    ⟨hs.reading, rfl, ?_⟩⟩
  · exact bind_eq_ok_iff.mpr ⟨g, hs.settled,
      bind_eq_ok_iff.mpr ⟨g', hflag, rfl⟩⟩
  · rw [hschema]
    exact hs.schemaMet

/-- A group of arguments makes its setting and leaves the reader at rest. -/
theorem RestsAt.take_group
    {a : Setting} {group : List String} (hgroup : Writes a group)
    (hs : s.RestsAt g) (hmake : a.make g = .ok g') :
    ∃ s', group.foldlM (take .generate) s = .ok s' ∧ s'.RestsAt g' := by
  have hone {word : String}
      (h : ∃ s', take .generate s word = .ok s' ∧ s'.RestsAt g') :
      ∃ s', [word].foldlM (take .generate) s = .ok s' ∧ s'.RestsAt g' := by
    obtain ⟨s', hword, hs'⟩ := h
    exact ⟨s', bind_eq_ok_iff.mpr ⟨s', hword, rfl⟩, hs'⟩
  have hput := (Setting.make_eq_ok_iff.mp hmake).2
  cases hgroup with
  | schema hpath =>
      apply hone
      rw [take_of_plain hs.reading hpath.ofText]
      exact hs.takeSchema hmake
  | @short option word text hword htext =>
      refine hs.takeApart hmake ?_ htext
      cases option with
      | library =>
          cases hword
          exact take_of_short hs.reading (Word.ofText_short rfl (by decide))
      | specName => cases hword
      | outputDir =>
          cases hword
          exact take_of_short hs.reading (Word.ofText_short rfl (by decide))
  | @long option text htext =>
      obtain ⟨name, hname, hlong, -⟩ := option.ofText_long
      refine hs.takeApart hmake ?_ htext
      rw [take_of_long hs.reading hlong, takeLong, hname]
  | joined option text =>
      apply hone
      obtain ⟨name, hname, -, hjoined⟩ := option.ofText_long
      rw [take_of_long hs.reading (hjoined text), takeLong, hname]
      exact hs.takeJoined hmake
  | rejectDuplicates =>
      apply hone
      rw [take_of_long hs.reading (Word.ofText_long rfl rfl (by decide)).1]
      exact hs.takeFlag hmake (hput ▸ rfl)
  | noArgComments =>
      apply hone
      rw [take_of_long hs.reading (Word.ofText_long rfl rfl (by decide)).1]
      exact hs.takeFlag hmake (hput ▸ rfl)
  | verbose =>
      apply hone
      rw [take_of_long hs.reading (Word.ofText_long rfl rfl (by decide)).1]
      exact hs.takeFlag hmake (hput ▸ rfl)
  | shortVerbose =>
      apply hone
      have hletter :
          takeShort .generate s ['v'] = s.takeFlag .generate .verbose :=
        bind_pure _
      rw [take_of_short hs.reading (Word.ofText_short rfl (by decide)), hletter]
      exact hs.takeFlag hmake (hput ▸ rfl)

/-- Groups of arguments are read as their settings are made. -/
theorem RestsAt.take_groups
    {settings : List Setting} {groups : List (List String)}
    (hgroups : List.Forall₂ Writes settings groups) (hs : s.RestsAt g)
    (hmake : settings.foldlM Setting.make g = .ok g') :
    ∃ s', groups.flatten.foldlM (take .generate) s = .ok s' ∧
      s'.RestsAt g' := by
  induction hgroups generalizing s g with
  | nil =>
      obtain rfl := Except.ok.inj hmake
      exact ⟨s, rfl, hs⟩
  | cons hgroup _ ih =>
      rw [List.foldlM_cons] at hmake
      obtain ⟨g₁, ha, hrest⟩ := bind_eq_ok_iff.mp hmake
      obtain ⟨s₁, hread, hs₁⟩ := hs.take_group hgroup ha
      obtain ⟨s', hreadRest, hs'⟩ := ih hs₁ hrest
      rw [List.flatten_cons, List.foldlM_append]
      exact ⟨s', bind_eq_ok_iff.mpr ⟨s₁, hread, hreadRest⟩, hs'⟩

end State

/-! ## Settings of a run -/

/-- The settings that parameters are made of, the verbosity one by one. -/
def GenerateParams.settings (p : GenerateParams) : List Setting :=
  [.schema p.schemaPath, .value .library p.library] ++
    p.specName.toList.map (.value .specName) ++
    p.outputDir.toList.map (.value .outputDir) ++
    (if p.rejectDuplicates then [.rejectDuplicates] else []) ++
    (if p.noArgComments then [.noArgComments] else []) ++
    List.replicate p.verbose .verbose

/-- What has been given when all parameters have. -/
def GenerateParams.given (p : GenerateParams) : Given where
  schema := some p.schemaPath
  library := some p.library
  specName := p.specName
  outputDir := p.outputDir
  rejectDuplicates := p.rejectDuplicates
  noArgComments := p.noArgComments
  verbose := p.verbose

theorem foldlM_make_append
    {xs ys : List Setting} {g g₁ g' : Given}
    (hxs : xs.foldlM Setting.make g = .ok g₁)
    (hys : ys.foldlM Setting.make g₁ = .ok g') :
    (xs ++ ys).foldlM Setting.make g = .ok g' := by
  rw [List.foldlM_append, hxs]
  exact hys

theorem foldlM_make_verbose
    {n : Nat} {g : Given} (hn : g.verbose + n ≤ maxVerbose) :
    (List.replicate n Setting.verbose).foldlM Setting.make g =
      .ok { g with verbose := g.verbose + n } := by
  induction n generalizing g with
  | zero => rfl
  | succ n ih =>
      have hput : Setting.verbose.put g =
          { g with verbose := g.verbose + 1 } := by
        rw [Setting.put, Nat.min_eq_left (by omega)]
      have hrest :=
        @ih { g with verbose := g.verbose + 1 } (by dsimp only; omega)
      rw [Nat.add_assoc, Nat.add_comm 1 n] at hrest
      exact foldlM_make_cons_iff.mpr ⟨trivial, hput ▸ hrest⟩

theorem GenerateParams.make_settings
    {p : GenerateParams} (hschema : p.schemaPath ≠ "")
    (houtput : p.outputDir ≠ some "") (hverbose : p.verbose ≤ maxVerbose) :
    p.settings.foldlM Setting.make {} = .ok p.given := by
  obtain ⟨schema, library, specName, outputDir, rejectDuplicates,
    noArgComments, verbose⟩ := p
  have hrequired :
      [Setting.schema schema, .value .library library].foldlM
        Setting.make {} =
      .ok { schema := schema, library := library } :=
    foldlM_make_cons_iff.mpr ⟨⟨rfl, by simpa using hschema⟩,
      foldlM_make_cons_iff.mpr ⟨rfl, rfl⟩⟩
  have hspecName :
      (specName.toList.map (.value .specName)).foldlM
        Setting.make { schema := schema, library := library } =
      .ok { schema := schema, library := library, specName } := by
    cases specName with
    | none => rfl
    | some name => exact foldlM_make_cons_iff.mpr ⟨rfl, rfl⟩
  have houtputDir :
      (outputDir.toList.map (.value .outputDir)).foldlM
        Setting.make { schema := schema, library := library, specName } =
      .ok { schema := schema, library := library, specName, outputDir } := by
    cases outputDir with
    | none => rfl
    | some directory =>
        exact foldlM_make_cons_iff.mpr ⟨⟨rfl, by simpa using houtput⟩, rfl⟩
  have hreject :
      (if rejectDuplicates then [Setting.rejectDuplicates] else []).foldlM
        Setting.make
        { schema := schema, library := library, specName, outputDir } =
      .ok
        { schema := schema, library := library, specName, outputDir,
          rejectDuplicates } := by
    cases rejectDuplicates with
    | false => rfl
    | true => exact foldlM_make_cons_iff.mpr ⟨rfl, rfl⟩
  have hcomments :
      (if noArgComments then [Setting.noArgComments] else []).foldlM
        Setting.make
        { schema := schema, library := library, specName, outputDir,
          rejectDuplicates } =
      .ok
        { schema := schema, library := library, specName, outputDir,
          rejectDuplicates, noArgComments } := by
    cases noArgComments with
    | false => rfl
    | true => exact foldlM_make_cons_iff.mpr ⟨rfl, rfl⟩
  have hcount := @foldlM_make_verbose verbose
    { schema := schema, library := library, specName, outputDir,
      rejectDuplicates, noArgComments }
    (by simpa using hverbose)
  rw [Nat.zero_add] at hcount
  have hvalues :=
    foldlM_make_append (foldlM_make_append hrequired hspecName) houtputDir
  have hflags :=
    foldlM_make_append (foldlM_make_append hvalues hreject) hcomments
  exact foldlM_make_append hflags hcount

/-- The choices of a run are those that settings ask for, and the defaults
otherwise. -/
structure GenerateArgs.Follows (a : GenerateArgs) (settings : List Setting) :
    Prop where
  schemaPath : ∀ path, .schema path ∈ settings ↔ path = a.schemaPath
  library : ∀ name, .value .library name ∈ settings ↔ name = a.library
  specName : ∀ name, .value .specName name ∈ settings → a.specName = name
  specName_default : (∀ name, .value .specName name ∉ settings) →
    a.specName = a.library
  outputDir : ∀ directory, .value .outputDir directory ∈ settings ↔
    a.outputDir = some directory
  duplicates : a.duplicates = .reject ↔ .rejectDuplicates ∈ settings
  argComments : a.argComments = true ↔ .noArgComments ∉ settings

theorem GenerateArgs.follows_ofParams (p : GenerateParams) :
    (GenerateArgs.ofParams p).Follows p.settings := by
  obtain ⟨schema, library, specName, outputDir, rejectDuplicates,
    noArgComments, verbose⟩ := p
  constructor
  case specName =>
    intro name hname
    have hgiven : specName = some name := by
      simpa [GenerateParams.settings, List.mem_replicate] using hname
    rw [GenerateArgs.ofParams, hgiven]
    rfl
  case specName_default =>
    intro hnone
    cases specName with
    | none => rfl
    | some name => exact absurd (by simp [GenerateParams.settings]) (hnone name)
  case duplicates =>
    cases rejectDuplicates <;>
      simp [GenerateParams.settings, GenerateArgs.ofParams, List.mem_replicate]
  case argComments =>
    cases noArgComments <;>
      simp [GenerateParams.settings, GenerateArgs.ofParams, List.mem_replicate]
  all_goals
    intro value
    simp [GenerateParams.settings, GenerateArgs.ofParams, List.mem_replicate]

theorem GenerateArgs.Follows.perm
    {a : GenerateArgs} {xs ys : List Setting} (h : a.Follows xs)
    (hperm : xs.Perm ys) :
    a.Follows ys := by
  constructor
  case schemaPath =>
    exact fun path => hperm.mem_iff.symm.trans (h.schemaPath path)
  case library => exact fun name => hperm.mem_iff.symm.trans (h.library name)
  case specName =>
    exact fun name hname => h.specName name (hperm.mem_iff.mpr hname)
  case specName_default =>
    exact fun hnone => h.specName_default fun name hname =>
      hnone name (hperm.mem_iff.mp hname)
  case outputDir =>
    exact fun directory => hperm.mem_iff.symm.trans (h.outputDir directory)
  case duplicates => exact h.duplicates.trans hperm.mem_iff
  case argComments => exact h.argComments.trans (not_congr hperm.mem_iff)

theorem standalone_of_ofList
    {text : String} {c : Char} {cs : List Char}
    (htext : text = String.ofList (c :: cs)) (hc : c ≠ '-') :
    Standalone text := by
  refine .inr ?_
  rw [htext, String.toList_ofList]
  simpa using hc

/-- However the settings of a run are ordered and written, the command line is
read as the run with these settings. -/
theorem Invocation.ofArguments_groups
    {p : GenerateParams} {settings : List Setting} {groups : List (List String)}
    (hschema : p.schemaPath ≠ "") (houtput : p.outputDir ≠ some "")
    (hverbose : p.verbose ≤ maxVerbose) (hsettings : settings.Perm p.settings)
    (hgroups : List.Forall₂ Writes settings groups) :
    Invocation.ofArguments ("generate" :: groups.flatten) = .ok (.generate p) ∧
      (GenerateArgs.ofParams p).Follows settings := by
  have hmake :=
    foldlM_make_perm hsettings.symm (p.make_settings hschema houtput hverbose)
  have hstart : State.RestsAt {} {} := ⟨rfl, rfl, rfl⟩
  obtain ⟨s, hread, hs⟩ := hstart.take_groups hgroups hmake
  have hgiven : Given.ofArguments .generate groups.flatten = .ok p.given :=
    bind_eq_ok_iff.mpr ⟨s, hread, hs.settled⟩
  have hparams : GenerateParams.ofArguments groups.flatten = .ok p := by
    rw [GenerateParams.ofArguments, hgiven]
    rfl
  have hcommand : Word.ofText "generate" = .plain :=
    (standalone_of_ofList rfl (by decide)).ofText
  refine ⟨?_, (GenerateArgs.follows_ofParams p).perm hsettings.symm⟩
  rw [Invocation.ofArguments, hcommand]
  exact bind_eq_ok_iff.mpr ⟨p, hparams, rfl⟩

/-- The schema comes from standard input, the library is named like an option,
and the name of the spec holds an equals sign. -/
theorem Invocation.ofArguments_groups_oddNames :
    Invocation.ofArguments
        ["generate", "--verbose", "--library" ++ "=" ++ "-l", "-o", "out", "-",
          "--no-arg-comments", "-v", "--spec-name" ++ "=" ++ "a=b"] =
      .ok (.generate ⟨"-", "-l", some "a=b", some "out", false, true, 2⟩) ∧
    (GenerateArgs.ofParams
        ⟨"-", "-l", some "a=b", some "out", false, true, 2⟩).Follows
      [.verbose, .value .library "-l", .value .outputDir "out", .schema "-",
        .noArgComments, .verbose, .value .specName "a=b"] :=
  Invocation.ofArguments_groups (by simp) (by simp) (by decide) (by decide)
    (.cons .verbose (.cons (.joined .library "-l")
      (.cons (.short rfl (standalone_of_ofList rfl (by decide)))
        (.cons (.schema (.inl rfl)) (.cons .noArgComments
          (.cons .shortVerbose (.cons (.joined .specName "a=b") .nil)))))))

end NativeGlue.Command
