import NativeGlue.Proofs.Declarations
import NativeGlue.Proofs.Listing

/-!
# Documents from their texts

What the text of a document shows of it.  The text is cut into lines, which is
possible when no name holds a line feed, and the lines into declarations.  The
names of an assembled document are made of the names that it is assembled from.
-/

namespace NativeGlue.Bridge

/-! ## Documents -/

/-- The lines of a document after its header. -/
def Document.body (d : Document) : List String :=
  ["", "#include \"" ++ d.included ++ "\"", ""] ++
    d.namespaces.map (fun ns => "namespace " ++ ns ++ " \x7b") ++
    d.items.flatMap (fun item => "" :: item.lines d.argComments) ++
    [""] ++
    d.namespaces.reverse.map (fun ns => "\x7d // namespace " ++ ns)

theorem Document.render_eq (d : Document) :
    d.render = Text.trimEnd d.header ++ "\n" ++
      String.join (d.body.map (· ++ "\n")) := by
  rw [Document.render, show d.lines = Text.trimEnd d.header :: d.body from rfl,
    List.map_cons, String.join_cons]

theorem Document.lacks_feed_of_mem_body
    {d : Document} (hincluded : Lacks '\n' d.included)
    (hnamespaces : ∀ ns ∈ d.namespaces, Lacks '\n' ns)
    (hnames : ∀ item ∈ d.items, ∀ n ∈ item.names, Lacks '\n' n) :
    ∀ l ∈ d.body, Lacks '\n' l := by
  have hempty : Lacks '\n' "" := lacks_ofList rfl (by decide)
  simp only [Document.body, List.forall_mem_append, List.forall_mem_cons,
    List.forall_mem_map, List.mem_reverse, lacks_append_iff, hempty, hincluded,
    List.not_mem_nil, false_implies, implies_true, true_and, and_true]
  refine ⟨⟨⟨?_, ?_⟩, ?_⟩, ?_⟩
  · and_intros <;> exact lacks_ofList rfl (by decide)
  · intro ns hns
    exact ⟨⟨lacks_ofList rfl (by decide), hnamespaces ns hns⟩,
      lacks_ofList rfl (by decide)⟩
  · intro l hl
    obtain ⟨item, hitem, hline⟩ := List.mem_flatMap.mp hl
    rcases List.mem_cons.mp hline with rfl | hline
    · exact hempty
    · exact Item.lacks_feed_of_mem_lines (hnames item hitem)
        d.argComments l hline
  · intro ns hns
    exact ⟨lacks_ofList rfl (by decide), hnamespaces ns hns⟩

/-- The lines of a document show what it includes and its declarations, without
the names of arguments. -/
theorem Document.body_inj
    {d d' : Document} (hnamespaces : d.namespaces = enclosingNamespaces)
    (hnamespaces' : d'.namespaces = enclosingNamespaces)
    (hcomments : d.argComments = d'.argComments)
    (hitems : ∀ item ∈ d.items, item.Legible)
    (hitems' : ∀ item ∈ d'.items, item.Legible)
    (h : d.body = d'.body) :
    d.included = d'.included ∧
      d.items.map Item.withoutArgs = d'.items.map Item.withoutArgs := by
  have hcode : Delimited Item.Legible Item.withoutArgs
      (fun item => "" :: item.lines d.argComments) := by
    intro item item' hitem hitem' rest rest' heq
    exact delimited_item d.argComments item item' hitem hitem' rest rest'
      (List.cons.inj heq).2
  have hend : ∀ (item : Item), item.Legible → ∀ rest ns ls,
      "" :: item.lines d.argComments ++ rest ≠
        "" :: ("\x7d // namespace " ++ ns) :: ls := by
    intro item hitem rest ns ls heq
    obtain ⟨s, ls', hlines⟩ := hitem.exists_lines_eq d.argComments
    rw [hlines] at heq
    exact item.opening_append_ne_brace s ns
      (List.cons.inj (List.cons.inj heq).2).1
  simp only [Document.body, hnamespaces, hnamespaces', ← hcomments,
    enclosingNamespaces, List.map_cons, List.map_nil, List.reverse_cons,
    List.reverse_nil, List.nil_append, List.cons_append, List.append_assoc,
    List.cons.injEq, true_and] at h
  obtain ⟨hincluded, hlines⟩ := h
  refine ⟨?_, ?_⟩
  · exact (String.append_right_inj _).mp
      ((String.append_left_inj _).mp hincluded)
  · exact (hcode.flatMap_append_inj hitems hitems'
      (fun item hitem rest => hend item hitem rest _ _)
      (fun item hitem rest => hend item hitem rest _ _) hlines).1

/-! ## Assembled documents -/

/-- A character occurs in no name of a library, of a file and of some modules
with their methods and parameters. -/
structure NamesLack
    (c : Char) (library spec : String) (modules : List NativeModule) :
    Prop where
  ofLibrary : Lacks c library
  ofSpec : Lacks c spec
  ofModule : ∀ m ∈ modules, Lacks c m.name
  ofMethod : ∀ m ∈ modules, ∀ method ∈ m.methods, Lacks c method.name
  ofParam : ∀ m ∈ modules, ∀ method ∈ m.methods, ∀ p ∈ method.params,
    Lacks c p.name

section Assembled

variable {library spec : String} {config : Config}
  {modules : Table NativeModule} {doc : Document}

theorem emitMethod_legible
    {moduleName : String} {aliases : AliasTable} {m : Method} {e : Emitted}
    (hname : Lacks '"' m.name)
    (hemit : emitMethod moduleName aliases m = .ok (some e)) :
    e.thunk.Legible := by
  have hserves := emitMethod_serves hemit
  constructor
  · rw [hserves.thunk_method]
    exact hname
  · rw [hserves.isPromise]
    exact Kind.ofResult_eq_promise_iff (thunk_of_emitMethod hemit).1

theorem legible_of_assemble
    (hnames : ∀ c ∈ ['"', '\n'], NamesLack c library spec modules.values)
    (hdoc : assemble library spec config modules = .ok doc) :
    ∀ item ∈ doc.items, item.Legible := by
  have hquote := hnames '"' (by simp)
  refine forall_items_of_assemble hdoc ?_ ?_ ?_
  · intro m hm method hmethod e hemit
    exact emitMethod_legible (hquote.ofMethod m hm method hmethod) hemit
  · intro m hm entries hentries
    refine ⟨⟨m.name, rfl⟩, ?_⟩
    intro entry hentry
    obtain ⟨method, hmethod, e, hemit, rfl⟩ := hentries entry hentry
    rw [(emitMethod_serves hemit).entry_method]
    exact hquote.ofMethod m hm method hmethod
  · trivial

theorem lacks_mark_ofList
    {c : Char} (hc : c ∈ ['"', '\n']) {s : String} {cs : List Char}
    (hs : s = String.ofList cs) (hcs : '"' ∉ cs ∧ '\n' ∉ cs) :
    Lacks c s := by
  apply lacks_ofList hs
  simp only [List.mem_cons, List.not_mem_nil, or_false] at hc
  rcases hc with rfl | rfl
  · exact hcs.1
  · exact hcs.2

theorem lacks_className
    {c : Char} (hc : c ∈ ['"', '\n']) {moduleName : String}
    (hmodule : Lacks c moduleName) :
    Lacks c (className moduleName) := by
  simp only [className, lacks_append_iff, hmodule, and_true]
  and_intros <;> exact lacks_mark_ofList hc rfl (by decide)

theorem lacks_thunkName
    {c : Char} (hc : c ∈ ['"', '\n']) {moduleName method : String}
    (hmodule : Lacks c moduleName) (hmethod : Lacks c method) :
    Lacks c (thunkName moduleName method) := by
  show Lacks c ("__hostFunction_" ++ className moduleName ++ "_" ++ method)
  simp only [lacks_append_iff, lacks_className hc hmodule, hmethod, and_true]
  and_intros <;> exact lacks_mark_ofList hc rfl (by decide)

theorem lacks_argNames
    {c : Char} (hc : c ∈ ['"', '\n']) {moduleName : String}
    {aliases : AliasTable} {m : Method} {e : Emitted}
    (hparams : ∀ p ∈ m.params, Lacks c p.name)
    (hemit : emitMethod moduleName aliases m = .ok (some e)) :
    ∀ n ∈ e.thunk.argNames, Lacks c n := by
  have hm := isLeftOut_eq_false_of_emitMethod_some hemit
  obtain ⟨kind, descriptor, -, -, hemitted⟩ :=
    (emitMethod_eq_ok_iff hm).mp hemit
  have hpromise : Lacks c promiseArgName := lacks_mark_ofList hc rfl (by decide)
  rw [Option.some.inj hemitted, List.forall_mem_append, List.forall_mem_map]
  refine ⟨hparams, ?_⟩
  split
  · simpa using hpromise
  · simp

/-- The names in the declarations of a document have no quote and no line feed
if the names that they are made of have none. -/
theorem lacks_of_mem_names_of_assemble
    {c : Char} (hc : c ∈ ['"', '\n'])
    (hnames : NamesLack c library spec modules.values)
    (hdoc : assemble library spec config modules = .ok doc) :
    ∀ item ∈ doc.items, ∀ n ∈ item.names, Lacks c n := by
  have hthunk : ∀ m ∈ modules.values, ∀ method ∈ m.methods,
      Lacks c (thunkName m.name method.name) := by
    intro m hm method hmethod
    exact lacks_thunkName hc (hnames.ofModule m hm)
      (hnames.ofMethod m hm method hmethod)
  have hclass : ∀ m ∈ modules.values, Lacks c (className m.name) := by
    intro m hm
    exact lacks_className hc (hnames.ofModule m hm)
  refine forall_items_of_assemble hdoc ?_ ?_ ?_
  · intro m hm method hmethod e hemit
    have hserves := emitMethod_serves hemit
    rw [Item.names, List.forall_mem_cons, List.forall_mem_cons,
      hserves.thunk_name, hserves.thunk_method]
    exact ⟨hthunk m hm method hmethod, hnames.ofMethod m hm method hmethod,
      lacks_argNames hc (hnames.ofParam m hm method hmethod) hemit⟩
  · intro m hm entries hentries
    rw [Item.names, List.forall_mem_cons]
    refine ⟨hclass m hm, ?_⟩
    intro n hn
    obtain ⟨entry, hentry, hmem⟩ := List.mem_flatMap.mp hn
    obtain ⟨method, hmethod, e, hemit, rfl⟩ := hentries entry hentry
    have hserves := emitMethod_serves hemit
    rw [hserves.entry_thunk, hserves.thunk_name, hserves.entry_method] at hmem
    simp only [List.mem_cons, List.not_mem_nil, or_false] at hmem
    rcases hmem with rfl | rfl
    · exact hnames.ofMethod m hm method hmethod
    · exact hthunk m hm method hmethod
  · rw [Item.names, List.forall_mem_cons]
    constructor
    · simp only [providerName, lacks_append_iff, hnames.ofLibrary, true_and]
      exact lacks_mark_ofList hc rfl (by decide)
    · intro n hn
      obtain ⟨case, hcase, hmem⟩ := List.mem_flatMap.mp hn
      obtain ⟨m, hm, rfl⟩ := List.mem_map.mp hcase
      simp only [List.mem_cons, List.not_mem_nil, or_false] at hmem
      rcases hmem with rfl | rfl
      · exact hnames.ofModule m hm
      · exact hclass m hm

theorem lacks_feed_of_assemble
    (hfeed : NamesLack '\n' library spec modules.values)
    (hdoc : assemble library spec config modules = .ok doc) :
    ∀ l ∈ doc.body, Lacks '\n' l := by
  have hitems := lacks_of_mem_names_of_assemble (by simp) hfeed hdoc
  rw [eq_ofBlocks_of_assemble hdoc] at hitems ⊢
  apply Document.lacks_feed_of_mem_body _ _ hitems
  · simp only [Document.ofBlocks, includedName, headerExtension,
      lacks_append_iff, hfeed.ofSpec, true_and]
    and_intros <;> exact lacks_ofList rfl (by decide)
  · simp only [Document.ofBlocks, enclosingNamespaces, List.forall_mem_cons,
      List.not_mem_nil, false_implies, implies_true, and_true]
    and_intros <;> exact lacks_ofList rfl (by decide)

end Assembled

/-- The provider is a declaration without arguments. -/
theorem Document.provider?_eq_findSome? (d : Document) :
    d.provider? = (d.items.map Item.withoutArgs).findSome? Item.provider? := by
  have hprovider : Item.provider? ∘ Item.withoutArgs = Item.provider? := by
    funext item
    cases item <;> rfl
  rw [List.findSome?_map, hprovider]
  rfl

/-- The text of a document whose names have no quote and no line feed shows the
document, up to the names of arguments. -/
theorem render_reveals
    {library library' spec spec' : String} {config config' : Config}
    {modules modules' : Table NativeModule} {doc doc' : Document}
    (hheader : config.header = config'.header)
    (hcomments : config.argComments = config'.argComments)
    (hdoc : assemble library spec config modules = .ok doc)
    (hdoc' : assemble library' spec' config' modules' = .ok doc')
    (hnames : ∀ c ∈ ['"', '\n'], NamesLack c library spec modules.values)
    (hnames' : ∀ c ∈ ['"', '\n'], NamesLack c library' spec' modules'.values)
    (hrender : doc.render = doc'.render) :
    doc.included = doc'.included ∧
      doc.provider? = doc'.provider? ∧
      doc.items.map Item.withoutArgs = doc'.items.map Item.withoutArgs := by
  have hbody : doc.body = doc'.body := by
    have hsame : doc.header = doc'.header := by
      rw [eq_ofBlocks_of_assemble hdoc, eq_ofBlocks_of_assemble hdoc']
      exact hheader
    rw [Document.render_eq, Document.render_eq, hsame, String.append_right_inj]
      at hrender
    exact lines_inj (lacks_feed_of_assemble (hnames _ (by simp)) hdoc)
      (lacks_feed_of_assemble (hnames' _ (by simp)) hdoc') hrender
  obtain ⟨hincluded, hitems⟩ : doc.included = doc'.included ∧
      doc.items.map Item.withoutArgs = doc'.items.map Item.withoutArgs := by
    apply Document.body_inj _ _ _ (legible_of_assemble hnames hdoc)
      (legible_of_assemble hnames' hdoc') hbody
    · rw [eq_ofBlocks_of_assemble hdoc]
      rfl
    · rw [eq_ofBlocks_of_assemble hdoc']
      rfl
    · rw [eq_ofBlocks_of_assemble hdoc, eq_ofBlocks_of_assemble hdoc']
      exact hcomments
  refine ⟨hincluded, ?_, hitems⟩
  rw [Document.provider?_eq_findSome?, Document.provider?_eq_findSome?, hitems]

/-- A module with one method of two parameters. -/
def mixerModule (left right : String) : NativeModule where
  name := "Mixer"
  methods :=
    [⟨"mix", [⟨left, false, .string false⟩, ⟨right, true, .boolean false⟩],
      .promise false, false⟩]
  aliases := Table.empty

/-- The host function of a method of two parameters. -/
def mixerThunk (left right : String) : Thunk :=
  ⟨"__hostFunction_NativeMixerSpecJSI_mix", .promise, "mix",
    ⟨[.string, .boxedBoolean, .promise], .void, true⟩, [left, right, "promise"]⟩

/-- The document of a module with one method of two parameters. -/
def mixerDocument (left right : String) : Document :=
  Document.ofBlocks "App" "App" {}
    [⟨"Mixer",
      [⟨mixerThunk left right, ⟨"mix", 2, (mixerThunk left right).name⟩⟩]⟩]

theorem assemble_mixer (left right : String) :
    assemble "App" "App" {} ⟨[("Mixer", mixerModule left right)]⟩ =
      .ok (mixerDocument left right) := rfl

theorem namesLack_mixer
    {left right : String} (hleft : ∀ c ∈ ['"', '\n'], Lacks c left)
    (hright : ∀ c ∈ ['"', '\n'], Lacks c right) :
    ∀ c ∈ ['"', '\n'], NamesLack c "App" "App" [mixerModule left right] := by
  intro c hc
  constructor
  case ofLibrary => exact lacks_mark_ofList hc rfl (by decide)
  case ofSpec => exact lacks_mark_ofList hc rfl (by decide)
  case ofModule =>
    exact List.forall_mem_singleton.mpr (lacks_mark_ofList hc rfl (by decide))
  case ofMethod =>
    simpa [mixerModule] using lacks_mark_ofList hc rfl (by decide)
  case ofParam => simpa [mixerModule] using And.intro (hleft c hc) (hright c hc)

theorem render_mixer :
    (mixerDocument "dry, wet" "gain").render =
      (mixerDocument "dry" "wet, gain").render := by
  have hargs : String.intercalate ", " ["dry, wet", "gain", "promise"] =
      String.intercalate ", " ["dry", "wet, gain", "promise"] := by
    decide +kernel
  have hlines : (mixerThunk "dry, wet" "gain").lines true =
      (mixerThunk "dry" "wet, gain").lines true := by
    simp only [Thunk.lines, Thunk.commentLines, mixerThunk, List.isEmpty_cons,
      Bool.not_false, Bool.and_self, if_true, hargs]
  have hitems : (mixerDocument "dry, wet" "gain").items.flatMap
        (fun item => "" :: item.lines true) =
      (mixerDocument "dry" "wet, gain").items.flatMap
        (fun item => "" :: item.lines true) :=
    congrArg (fun lines => "" :: lines ++
      (mixerDocument "dry" "wet, gain").items.tail.flatMap
        (fun item => "" :: item.lines true)) hlines
  have hbody : (mixerDocument "dry, wet" "gain").body =
      (mixerDocument "dry" "wet, gain").body := by
    unfold Document.body
    rw [show (mixerDocument "dry, wet" "gain").argComments = true from rfl,
      hitems]
    rfl
  rw [Document.render_eq, Document.render_eq, hbody]
  rfl

/-- A comma in the name of a parameter is read as the end of the name, so two
documents have one text; they differ in the names of arguments only. -/
theorem render_reveals_mixer :
    ∃ doc doc' : Document,
      assemble "App" "App" {} ⟨[("Mixer", mixerModule "dry, wet" "gain")]⟩ =
          .ok doc ∧
        assemble "App" "App" {} ⟨[("Mixer", mixerModule "dry" "wet, gain")]⟩ =
          .ok doc' ∧
        doc.render = doc'.render ∧
        doc.items ≠ doc'.items ∧
        doc.included = doc'.included ∧
        doc.provider? = doc'.provider? ∧
        doc.items.map Item.withoutArgs = doc'.items.map Item.withoutArgs := by
  refine ⟨mixerDocument "dry, wet" "gain", mixerDocument "dry" "wet, gain",
    assemble_mixer _ _, assemble_mixer _ _, render_mixer, ?_, ?_⟩
  · intro h
    have hargs :
        ["dry, wet", "gain", "promise"] = ["dry", "wet, gain", "promise"] :=
      congrArg Thunk.argNames (Item.thunk.inj (List.cons.inj h).1)
    revert hargs
    decide
  · apply render_reveals rfl rfl (assemble_mixer _ _) (assemble_mixer _ _) _ _
      render_mixer
    · exact namesLack_mixer (fun _ hc => lacks_mark_ofList hc rfl (by decide))
        (fun _ hc => lacks_mark_ofList hc rfl (by decide))
    · exact namesLack_mixer (fun _ hc => lacks_mark_ofList hc rfl (by decide))
        (fun _ hc => lacks_mark_ofList hc rfl (by decide))

end NativeGlue.Bridge
