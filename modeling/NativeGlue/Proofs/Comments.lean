import NativeGlue.Proofs.HostFunctions
import NativeGlue.Proofs.Rendering
import NativeGlue.Proofs.TwoRuns

/-!
# Comments that list arguments

A file can be generated with the names of arguments in comments or without them.
Each comment is a line of its own, and no other line of the file begins as a
comment does, so the one file is the other with the comments put in.  This is
followed from the lines of a declaration to the text of the file, where the
header is the only part that may be more than one line.
-/

namespace NativeGlue

/-! ## Lines of a text -/

/-- The lines of a text, without the line feeds between them. -/
def linesOf (s : String) : List String :=
  (s.toList.splitOn '\n').map String.ofList

@[simp] theorem linesOf_append_feed (s t : String) :
    linesOf (s ++ "\n" ++ t) = linesOf s ++ linesOf t := by
  have hfeed : "\n".toList = ['\n'] := String.toList_ofList
  simp only [linesOf, String.toList_append, hfeed, List.append_assoc,
    List.singleton_append, List.splitOn_append_cons_self, List.map_append]

theorem linesOf_of_lacks_feed {s : String} (hs : Lacks '\n' s) :
    linesOf s = [s] := by
  rw [linesOf, List.splitOn_eq_singleton hs,
    List.map_singleton, String.ofList_toList]

theorem linesOf_join {ls : List String} (hls : ∀ l ∈ ls, Lacks '\n' l) :
    linesOf (String.join (ls.map (· ++ "\n"))) = ls ++ [""] := by
  induction ls with
  | nil => exact linesOf_of_lacks_feed (lacks_ofList rfl (by decide))
  | cons l ls ih =>
      rw [List.forall_mem_cons] at hls
      rw [List.map_cons, String.join_cons, linesOf_append_feed,
        linesOf_of_lacks_feed hls.1, ih hls.2, List.singleton_append,
        List.cons_append]

@[simp] theorem intercalate_linesOf (s : String) :
    String.intercalate "\n" (linesOf s) = s := by
  have hfeed : "\n".toList = ['\n'] := String.toList_ofList
  have hlines : (linesOf s).map String.toList = s.toList.splitOn '\n' := by
    simp [linesOf]
  rw [← String.toList_inj, String.toList_intercalate, hlines,
    hfeed, List.intercalate_splitOn]

/-- More text lengthens the last line and adds lines after it. -/
theorem exists_splitOn_append (cs rest : List Char) :
    ∃ front back, (cs ++ rest).splitOn '\n' = front ++ back ∧
      List.Forall₂ (· <+: ·) (cs.splitOn '\n') front := by
  induction cs with
  | nil =>
      obtain ⟨line, lines, hlines⟩ :=
        List.exists_cons_of_ne_nil (List.splitOn_ne_nil '\n' rest)
      exact ⟨[line], lines, hlines, .cons List.nil_prefix .nil⟩
  | cons c cs ih =>
      obtain ⟨front, back, hsplit, hfront⟩ := ih
      rw [List.cons_append, List.splitOn_cons_eq_if_modifyHead,
        List.splitOn_cons_eq_if_modifyHead, hsplit]
      split
      · exact ⟨[] :: front, back, rfl, .cons List.nil_prefix hfront⟩
      · -- A text has a first line, which is the one that gets longer here.
        generalize hcs : cs.splitOn '\n' = lines at hfront
        cases hfront with
        | nil => exact absurd hcs (List.splitOn_ne_nil '\n' cs)
        | cons hline hlines =>
            refine ⟨_, back, rfl, .cons ?_ hlines⟩
            exact List.cons_prefix_cons.mpr ⟨rfl, hline⟩

/-- The lines of a text without its blank end begin lines of the text. -/
theorem exists_line_of_mem_trimEnd
    {s line : String} (hline : line ∈ linesOf (Text.trimEnd s)) :
    ∃ longer ∈ linesOf s, line.toList <+: longer.toList := by
  obtain ⟨cs, hcs, rfl⟩ := List.mem_map.mp hline
  have htrim : (Text.trimEnd s).toList <+: s.toList := by
    rw [Text.trimEnd, String.toList_ofList, Text.dropBlankEnd,
      ← List.reverse_suffix, List.reverse_reverse]
    exact List.dropWhile_suffix _
  obtain ⟨rest, hrest⟩ := htrim
  obtain ⟨front, back, hsplit, hfront⟩ :=
    exists_splitOn_append (Text.trimEnd s).toList rest
  obtain ⟨longer, hlonger, hprefix⟩ := exists_mem_of_forall₂ hfront.flip hcs
  rw [hrest] at hsplit
  refine ⟨String.ofList longer, List.mem_map_of_mem ?_, ?_⟩
  · rw [hsplit]
    exact List.mem_append_left back hlonger
  · rwa [String.toList_ofList, String.toList_ofList]

/-- Whether a method declares a parameter or returns a promise. -/
def Method.takesArgument (m : Method) : Bool :=
  !m.params.isEmpty || m.returnsPromise

namespace Bridge

/-! ## Comments among lines -/

/-- The text with which the comment of a host function begins. -/
def commentOpening : String := "  // args: "

theorem toList_commentOpening :
    commentOpening.toList =
      [' ', ' ', '/', '/', ' ', 'a', 'r', 'g', 's', ':', ' '] :=
  String.toList_ofList

/-- Whether a line begins as a comment does. -/
def isComment (line : String) : Bool :=
  commentOpening.toList.isPrefixOf line.toList

/-- A text without the lines that begin as a comment does. -/
def withoutComments (text : String) : String :=
  String.intercalate "\n" ((linesOf text).filter fun line => !isComment line)

theorem isComment_iff {line : String} :
    isComment line = true ↔ commentOpening.toList <+: line.toList :=
  List.isPrefixOf_iff_prefix

@[simp] theorem isComment_append (s : String) :
    isComment (commentOpening ++ s) = true := by
  rw [isComment_iff, String.toList_append]
  exact List.prefix_append _ _

theorem isComment_eq_false_of_ofList {line : String} {cs : List Char}
    (hline : line = String.ofList cs)
    (hcs : ¬[' ', ' ', '/', '/', ' ', 'a', 'r', 'g', 's', ':', ' '] <+: cs) :
    isComment line = false := by
  rw [← Bool.not_eq_true, isComment_iff, toList_commentOpening,
    hline, String.toList_ofList]
  exact hcs

/-- A line that begins otherwise is no comment, whatever is written into it. -/
theorem isComment_append_eq_false
    {p : String} {ps : List Char} (hp : p = String.ofList ps)
    (hps : ¬ps <+: [' ', ' ', '/', '/', ' ', 'a', 'r', 'g', 's', ':', ' '])
    (hps' : ¬[' ', ' ', '/', '/', ' ', 'a', 'r', 'g', 's', ':', ' '] <+: ps)
    (s : String) :
    isComment (p ++ s) = false := by
  rw [← Bool.not_eq_true, isComment_iff, String.toList_append]
  rintro ⟨rest, hrest⟩
  apply append_ne_append hp (String.ofList_toList (s := commentOpening)).symm
    (toList_commentOpening ▸ hps) (toList_commentOpening ▸ hps')
    s (String.ofList rest)
  rw [← String.toList_inj, String.toList_append, String.toList_append,
    String.toList_ofList, hrest]

/-- The one list of lines is the other with a number of comments put in. -/
structure Commented (commented plain : List String) (n : Nat) : Prop where
  strip : commented.filter (fun line => !isComment line) = plain
  count : commented.countP isComment = n

namespace Commented

variable {xs ys xs' ys' : List String} {n n' : Nat}

theorem same {ls : List String} (hls : ∀ l ∈ ls, isComment l = false) :
    Commented ls ls 0 := by
  constructor
  · exact List.filter_eq_self.mpr fun l hl => by rw [hls l hl, Bool.not_false]
  · exact List.countP_eq_zero.mpr fun l hl => Bool.not_eq_true _ ▸ hls l hl

theorem append (h : Commented xs ys n) (h' : Commented xs' ys' n') :
    Commented (xs ++ xs') (ys ++ ys') (n + n') := by
  constructor
  · rw [List.filter_append, h.strip, h'.strip]
  · rw [List.countP_append, h.count, h'.count]

theorem cons {l : String} (hl : isComment l = false) (h : Commented xs ys n) :
    Commented (l :: xs) (l :: ys) n := by
  constructor
  · simp [hl, h.strip]
  · simp [hl, h.count]

end Commented

/-! ## Declarations -/

/-- A class is named after a module. -/
def Item.ClassNamed : Item → Prop
  | bridgeClass c => ∃ moduleName, c.name = className moduleName
  | _ => True

/-- The number of comments in a declaration. -/
def Item.commentCount : Item → Nat
  | thunk t => if t.argNames.isEmpty then 0 else 1
  | _ => 0

theorem isComment_brace : isComment "\x7d" = false :=
  isComment_eq_false_of_ofList rfl (by decide)

theorem isComment_empty : isComment "" = false :=
  isComment_eq_false_of_ofList rfl (by decide)

theorem Thunk.commented_commentLines (t : Thunk) :
    Commented (t.commentLines true) []
      (if t.argNames.isEmpty then 0 else 1) := by
  have hcomment :
      isComment ("  // args: " ++ String.intercalate ", " t.argNames) = true :=
    isComment_append _
  unfold Thunk.commentLines
  rw [Bool.true_and]
  cases t.argNames.isEmpty with
  | true => exact Commented.same (by simp)
  | false => constructor <;> simp [hcomment]

theorem Thunk.commented (t : Thunk) :
    Commented (t.lines true) (t.lines false)
      (if t.argNames.isEmpty then 0 else 1) := by
  rw [Thunk.lines_eq, Thunk.lines_eq]
  have hcall : ∀ call, ∀ l ∈ [callOpening ++ call, "\x7d"],
      isComment l = false := by
    intro call l hl
    rcases List.mem_pair.mp hl with rfl | rfl
    · exact isComment_append_eq_false rfl (by decide) (by decide) _
    · exact isComment_brace
  exact (t.commented_commentLines.append (Commented.same (hcall _))).cons
    (isComment_append_eq_false rfl (by decide) (by decide) _)

theorem BridgeClass.isComment_of_mem_lines {c : BridgeClass}
    (hname : ∃ moduleName, c.name = className moduleName) :
    ∀ l ∈ c.lines, isComment l = false := by
  obtain ⟨moduleName, hname⟩ := hname
  simp only [BridgeClass.lines, List.forall_mem_append, List.forall_mem_cons,
    List.forall_mem_map, List.not_mem_nil, false_implies, implies_true,
    and_true]
  refine ⟨⟨⟨?_, isComment_eq_false_of_ofList rfl (by decide)⟩, ?_⟩,
    isComment_brace⟩
  · rw [hname, className]
    simp only [String.append_assoc]
    exact isComment_append_eq_false rfl (by decide) (by decide) _
  · intro e he
    rw [Entry.line_eq]
    exact isComment_append_eq_false rfl (by decide) (by decide) _

theorem Provider.isComment_of_mem_lines (p : Provider) :
    ∀ l ∈ p.lines, isComment l = false := by
  simp only [Provider.lines, String.append_assoc, List.forall_mem_append,
    List.forall_mem_cons, List.not_mem_nil, false_implies, implies_true,
    and_true]
  refine ⟨⟨?_, ?_⟩, isComment_eq_false_of_ofList rfl (by decide),
    isComment_brace⟩
  · exact isComment_append_eq_false rfl (by decide) (by decide) _
  · intro l hl
    obtain ⟨c, -, hline⟩ := List.mem_flatMap.mp hl
    simp only [ProviderCase.lines, String.append_assoc, List.mem_cons,
      List.not_mem_nil, or_false] at hline
    rcases hline with rfl | rfl | rfl
    · exact isComment_append_eq_false rfl (by decide) (by decide) _
    · exact isComment_append_eq_false rfl (by decide) (by decide) _
    · exact isComment_eq_false_of_ofList rfl (by decide)

theorem Item.commented {item : Item} (hitem : item.ClassNamed) :
    Commented (item.lines true) (item.lines false) item.commentCount := by
  cases item with
  | thunk t => exact t.commented
  | bridgeClass c =>
      exact Commented.same (BridgeClass.isComment_of_mem_lines hitem)
  | provider p => exact Commented.same p.isComment_of_mem_lines

theorem countP_thunk?_cons (item : Item) (items : List Item) :
    ((item :: items).filterMap Item.thunk?).countP
        (fun t => !t.argNames.isEmpty) =
      item.commentCount +
        (items.filterMap Item.thunk?).countP fun t => !t.argNames.isEmpty := by
  cases item with
  | thunk t =>
      have hthunk : (Item.thunk t).thunk? = some t := rfl
      rw [List.filterMap_cons_some hthunk, List.countP_cons,
        Nat.add_comm, Item.commentCount]
      cases t.argNames.isEmpty <;> rfl
  | bridgeClass c =>
      have hclass : (Item.bridgeClass c).thunk? = none := rfl
      rw [List.filterMap_cons_none hclass]
      exact (Nat.zero_add _).symm
  | provider p =>
      have hprovider : (Item.provider p).thunk? = none := rfl
      rw [List.filterMap_cons_none hprovider]
      exact (Nat.zero_add _).symm

theorem commented_items
    {items : List Item} (hitems : ∀ item ∈ items, item.ClassNamed) :
    Commented (items.flatMap fun item => "" :: item.lines true)
      (items.flatMap fun item => "" :: item.lines false)
      ((items.filterMap Item.thunk?).countP fun t => !t.argNames.isEmpty) := by
  induction items with
  | nil => exact Commented.same (by simp)
  | cons item items ih =>
      rw [List.forall_mem_cons] at hitems
      rw [countP_thunk?_cons]
      exact ((Item.commented hitems.1).cons isComment_empty).append
        (ih hitems.2)

/-! ## Documents -/

theorem Document.commented_body
    {d : Document} (hitems : ∀ item ∈ d.items, item.ClassNamed) :
    Commented { d with argComments := true }.body
      { d with argComments := false }.body
      (d.thunks.countP fun t => !t.argNames.isEmpty) := by
  have hopening :
      ∀ l ∈ ["", "#include \"" ++ d.included ++ "\"", ""] ++
        d.namespaces.map (fun ns => "namespace " ++ ns ++ " \x7b"),
      isComment l = false := by
    simp only [String.append_assoc, List.forall_mem_append,
      List.forall_mem_cons, List.forall_mem_map, List.not_mem_nil,
      false_implies, implies_true, and_true]
    refine ⟨⟨isComment_empty, ?_, isComment_empty⟩, fun ns _ => ?_⟩
    · exact isComment_append_eq_false rfl (by decide) (by decide) _
    · exact isComment_append_eq_false rfl (by decide) (by decide) _
  have hclosing :
      ∀ l ∈ [""] ++
        d.namespaces.reverse.map (fun ns => "\x7d // namespace " ++ ns),
      isComment l = false := by
    simp only [List.forall_mem_append, List.forall_mem_cons,
      List.forall_mem_map, List.not_mem_nil, false_implies, implies_true,
      and_true]
    refine ⟨isComment_empty, fun ns _ => ?_⟩
    exact isComment_append_eq_false rfl (by decide) (by decide) _
  have hbody :=
    ((Commented.same hopening).append (commented_items hitems)).append
      (Commented.same hclosing)
  rw [Nat.zero_add, Nat.add_zero] at hbody
  simpa only [Document.body, Document.thunks, List.append_assoc] using hbody

theorem Document.linesOf_render
    {d : Document} (hbody : ∀ l ∈ d.body, Lacks '\n' l) :
    linesOf d.render = linesOf (Text.trimEnd d.header) ++ (d.body ++ [""]) := by
  rw [Document.render_eq, linesOf_append_feed, linesOf_join hbody]

/-- The lines of the header are no comments after the blank end is dropped. -/
theorem isComment_of_mem_trimEnd {header : String}
    (hheader : ∀ l ∈ linesOf header, isComment l = false) :
    ∀ l ∈ linesOf (Text.trimEnd header), isComment l = false := by
  intro l hl
  obtain ⟨longer, hlonger, hprefix⟩ := exists_line_of_mem_trimEnd hl
  rw [← Bool.not_eq_true, isComment_iff]
  intro hcomment
  have hnot := hheader longer hlonger
  rw [isComment_iff.mpr (hcomment.trans hprefix)] at hnot
  cases hnot

theorem Document.commented_render
    {d : Document} (hitems : ∀ item ∈ d.items, item.ClassNamed)
    (hheader : ∀ l ∈ linesOf d.header, isComment l = false)
    (hfeed : ∀ argComments, ∀ l ∈ { d with argComments := argComments }.body,
      Lacks '\n' l) :
    Commented (linesOf { d with argComments := true }.render)
      (linesOf { d with argComments := false }.render)
      (d.thunks.countP fun t => !t.argNames.isEmpty) := by
  have hlast : ∀ l ∈ [""], isComment l = false := by simpa using isComment_empty
  have hlines := (Commented.same (isComment_of_mem_trimEnd hheader)).append
    ((Document.commented_body hitems).append (Commented.same hlast))
  rw [Nat.zero_add, Nat.add_zero] at hlines
  rwa [Document.linesOf_render (hfeed true),
    Document.linesOf_render (hfeed false)]

/-! ## Generated files -/

theorem argNames_of_emittedAs
    {m : NativeModule} {method : Method} {thunk : Thunk}
    (h : EmittedAs m method thunk) :
    (!thunk.argNames.isEmpty) = method.takesArgument := by
  obtain ⟨entry, hemit⟩ := h
  have hkept := isLeftOut_eq_false_of_emitMethod_some hemit
  have hserves := emitMethod_serves hemit
  obtain ⟨kind, descriptor, -, -, hemitted⟩ :=
    (emitMethod_eq_ok_iff hkept).mp hemit
  have hpromise := hserves.isPromise
  obtain ⟨rfl, -⟩ := Emitted.mk.inj (Option.some.inj hemitted)
  dsimp only at hpromise ⊢
  rw [Method.takesArgument, ← hpromise]
  cases descriptor.isPromise <;> simp

section TwoFiles

variable {library spec : String} {config : Config} {s : Schema}

theorem assemble_argComments
    {modules : Table NativeModule} {doc : Document}
    (hdoc : assemble library spec config modules = .ok doc)
    (argComments : Bool) :
    assemble library spec { config with argComments := argComments } modules =
      .ok { doc with argComments := argComments } := by
  obtain ⟨blocks, hblocks, rfl⟩ := assemble_eq_ok_iff.mp hdoc
  exact assemble_eq_ok_iff.mpr ⟨blocks, hblocks, rfl⟩

theorem generate_error_argComments
    {e : Error} (he : generate library spec config s = .error e)
    (argComments : Bool) :
    generate library spec { config with argComments := argComments } s =
      .error e := by
  rw [generate_eq_error_iff] at he ⊢
  refine he.imp_right ?_
  rintro ⟨flat, hflat, hassemble⟩
  rw [assemble_eq_error_iff] at hassemble
  exact ⟨flat, hflat, (assemble_eq_error_iff _ _ _).mpr hassemble⟩

theorem classNamed_of_assemble {modules : Table NativeModule} {doc : Document}
    (hdoc : assemble library spec config modules = .ok doc) :
    ∀ item ∈ doc.items, item.ClassNamed :=
  forall_items_of_assemble hdoc (fun _ _ _ _ _ _ => trivial)
    (fun m _ _ _ => ⟨m.name, rfl⟩) trivial

theorem NamesLack.keptModules
    {c : Char} (h : NamesLack c library spec s.modules) :
    NamesLack c library spec (keptModules s).values where
  ofLibrary := h.ofLibrary
  ofSpec := h.ofSpec
  ofModule m hm := h.ofModule m (mem_modules_of_mem_keptModules hm)
  ofMethod m hm := h.ofMethod m (mem_modules_of_mem_keptModules hm)
  ofParam m hm := h.ofParam m (mem_modules_of_mem_keptModules hm)

/-- Where the host functions are those of kept methods, as many of them have a
comment as there are methods that take an argument. -/
theorem countP_argNames
    {owners : List (NativeModule × Method)} {thunks : List Thunk}
    (h : List.Forall₂ (fun owner thunk => EmittedAs owner.1 owner.2 thunk)
      owners thunks) :
    (thunks.countP fun t => !t.argNames.isEmpty) =
      owners.countP fun o => o.2.takesArgument := by
  induction h with
  | nil => rfl
  | cons hemitted _ ih =>
      rw [List.countP_cons, List.countP_cons, ih,
        argNames_of_emittedAs hemitted]

/-- Generation with comments fails as generation without them does, and
otherwise gives the same file with the comments put in, one for each emitted
method that declares a parameter or returns a promise. -/
theorem generate_comments_inert
    (hnames : NamesLack '\n' library spec s.modules)
    (hheader : ∀ line ∈ linesOf config.header, isComment line = false) :
    SameOutcome
      (fun a b => a.name = b.name ∧ withoutComments a.contents = b.contents ∧
        (linesOf a.contents).countP isComment =
          (keptMethods (keptModules s).values).countP fun owner =>
            owner.2.takesArgument)
      (generate library spec { config with argComments := true } s)
      (generate library spec { config with argComments := false } s) := by
  cases hon : generate library spec { config with argComments := true } s with
  | error e =>
      rw [generate_error_argComments hon false]
      exact .error e
  | ok a =>
      obtain ⟨flat, doc, hflat, hdoc, rfl, hthunks⟩ :=
        forall₂_thunks_of_generate hon
      obtain rfl := eq_keptModules_of_flatten hflat
      have hoff : generate library spec { config with argComments := false } s =
          .ok ⟨artifactName spec, { doc with argComments := false }.render⟩ :=
        generate_eq_ok_iff.mpr
          ⟨_, _, hflat, assemble_argComments hdoc false, rfl⟩
      have hdoc' : { doc with argComments := true } = doc :=
        Except.ok.inj ((assemble_argComments hdoc true).symm.trans hdoc)
      have hdocHeader : doc.header = config.header := by
        rw [eq_ofBlocks_of_assemble hdoc]
        rfl
      have hlines : Commented (linesOf doc.render)
          (linesOf { doc with argComments := false }.render)
          (doc.thunks.countP fun t => !t.argNames.isEmpty) := by
        have h := Document.commented_render (classNamed_of_assemble hdoc)
          (hdocHeader ▸ hheader) fun argComments =>
            lacks_feed_of_assemble hnames.keptModules
              (assemble_argComments hdoc argComments)
        rwa [hdoc'] at h
      rw [hoff]
      refine .ok ⟨rfl, ?_, ?_⟩
      · rw [withoutComments, hlines.strip, intercalate_linesOf]
      · rw [hlines.count, countP_argNames hthunks]

end TwoFiles

theorem namesLack_clock : NamesLack '\n' "App" "App" clockSchema.modules := by
  constructor
  case ofLibrary => exact lacks_ofList rfl (by decide)
  case ofSpec => exact lacks_ofList rfl (by decide)
  case ofModule =>
    exact List.forall_mem_singleton.mpr (lacks_ofList rfl (by decide))
  case ofMethod =>
    refine List.forall_mem_singleton.mpr ?_
    simp only [clockModule, List.forall_mem_cons, List.not_mem_nil,
      false_implies, implies_true, and_true]
    and_intros <;> exact lacks_ofList rfl (by decide)
  case ofParam =>
    refine List.forall_mem_singleton.mpr ?_
    simp only [clockModule, List.forall_mem_cons, List.not_mem_nil,
      false_implies, implies_true, and_true, true_and]
    exact lacks_ofList rfl (by decide)

/-- A header whose lines nearly begin as a comment does. -/
def nearHeader : String := "// args: at" ++ "\n" ++ "  // arguments"

theorem isComment_of_mem_nearHeader :
    ∀ line ∈ linesOf nearHeader, isComment line = false := by
  rw [nearHeader, linesOf_append_feed,
    linesOf_of_lacks_feed (lacks_ofList rfl (by decide)),
    linesOf_of_lacks_feed (lacks_ofList rfl (by decide)), List.singleton_append,
    List.forall_mem_cons, List.forall_mem_singleton]
  exact ⟨isComment_eq_false_of_ofList rfl (by decide),
    isComment_eq_false_of_ofList rfl (by decide)⟩

/-- The promise and the parameter are commented on, and the accessor that is
left out is not. -/
theorem generate_comments_inert_clock :
    ∃ a b,
      generate "App" "App" { header := nearHeader } clockSchema = .ok a ∧
      generate "App" "App" { header := nearHeader, argComments := false }
        clockSchema = .ok b ∧
      withoutComments a.contents = b.contents ∧
      (linesOf a.contents).countP isComment = 2 := by
  have hsame := @generate_comments_inert "App" "App" { header := nearHeader }
    clockSchema namesLack_clock isComment_of_mem_nearHeader
  obtain ⟨a, ha⟩ : ∃ a,
      generate "App" "App" { header := nearHeader } clockSchema = .ok a :=
    ⟨_, rfl⟩
  obtain ⟨b, hb⟩ : ∃ b,
      generate "App" "App" { header := nearHeader, argComments := false }
        clockSchema = .ok b :=
    ⟨_, rfl⟩
  rw [ha, hb] at hsame
  cases hsame with
  | ok h => exact ⟨a, b, ha, hb, h.2.1, h.2.2.trans rfl⟩

end Bridge

end NativeGlue
