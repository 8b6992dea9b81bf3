import NativeGlue.Bridge.Generate
import NativeGlue.Proofs.Tokens

/-!
# Declarations from their lines

What the lines of a declaration show of it.  Names are written as they are, next
to fixed text, so a name is read off up to the fixed text that follows it.  Only
the names of arguments cannot be read back, because they are written into one
comment.
-/

namespace NativeGlue.Bridge

/-! ## Lines that can be told apart -/

/-- A host function without the names of its arguments. -/
def Thunk.withoutArgs (t : Thunk) : Thunk := { t with argNames := [] }

/-- A declaration without the names of arguments. -/
def Item.withoutArgs : Item → Item
  | thunk t => thunk t.withoutArgs
  | bridgeClass c => bridgeClass c
  | provider p => provider p

/-- A host function whose text shows it: its method has no quote in its name,
and its kind says whether it gives a promise. -/
structure Thunk.Legible (t : Thunk) : Prop where
  method : Lacks '"' t.method
  promise : t.kind = .promise ↔ t.descriptor.isPromise = true

/-- A declaration whose text shows it. -/
def Item.Legible : Item → Prop
  | thunk t => t.Legible
  | bridgeClass c =>
    (∃ moduleName, c.name = className moduleName) ∧
      ∀ e ∈ c.entries, Lacks '"' e.method
  | provider _ => True

theorem Kind.name_injective : Function.Injective Kind.name := by
  intro k k' h
  cases k <;> cases k' <;> simp_all [Kind.name]

theorem Kind.lacks_comma (k : Kind) : Lacks ',' k.name := by
  cases k <;> exact lacks_ofList rfl (by decide)

/-! ### Host functions -/

/-- The fixed text with which the call in a host function begins. -/
def callOpening : String :=
  "  return static_cast<JavaTurboModule &>(turboModule).invokeJavaMethod(rt, "

/-- The call of a host function comes after its comment, if it has one, and is
not taken for it. -/
theorem commentLines_append_inj
    {t t' : Thunk} {argComments : Bool} {call call' : String}
    {rest rest' : List String}
    (h : t.commentLines argComments ++ (callOpening ++ call) :: rest =
      t'.commentLines argComments ++ (callOpening ++ call') :: rest') :
    call = call' ∧ rest = rest' := by
  have hne : ∀ s s' : String, "  // args: " ++ s ≠ callOpening ++ s' :=
    append_ne_append rfl rfl (by decide) (by decide)
  have hcases : ∀ u : Thunk, u.commentLines argComments = [] ∨
      ∃ s, u.commentLines argComments = ["  // args: " ++ s] := by
    intro u
    unfold Thunk.commentLines
    split
    · exact Or.inr ⟨_, rfl⟩
    · exact Or.inl rfl
  rcases hcases t with ht | ⟨s, ht⟩ <;>
    rcases hcases t' with ht' | ⟨s', ht'⟩ <;>
    rw [ht, ht'] at h
  · obtain ⟨hcall, hrest⟩ := List.cons.inj h
    exact ⟨(String.append_right_inj _).mp hcall, hrest⟩
  · exact absurd (List.cons.inj h).1.symm (hne _ _)
  · exact absurd (List.cons.inj h).1 (hne _ _)
  · obtain ⟨hcall, hrest⟩ := List.cons.inj (List.cons.inj h).2
    exact ⟨(String.append_right_inj _).mp hcall, hrest⟩

theorem Thunk.lines_eq (t : Thunk) (argComments : Bool) :
    t.lines argComments =
      ("static facebook::jsi::Value " ++ (t.name ++
        ("(facebook::jsi::Runtime& rt, TurboModule &turboModule, " ++
          "const facebook::jsi::Value* args, size_t count) \x7b"))) ::
      (t.commentLines argComments ++
        (callOpening ++ (t.kind.name ++ (", \"" ++ (t.method ++ ("\", \"" ++
          (t.descriptor.text ++ "\", args, count);")))))) :: ["\x7d"]) := by
  simp only [Thunk.lines, callOpening, String.append_assoc, List.cons_append,
    List.nil_append]

theorem delimited_thunk (argComments : Bool) :
    Delimited Thunk.Legible Thunk.withoutArgs (Thunk.lines · argComments) := by
  intro t t' ht ht' rest rest' h
  simp only [Thunk.lines_eq, List.cons_append, List.append_assoc,
    List.nil_append] at h
  obtain ⟨hopening, hlines⟩ := List.cons.inj h
  have hname : t.name = t'.name :=
    (String.append_left_inj _).mp ((String.append_right_inj _).mp hopening)
  obtain ⟨hcall, hend⟩ := commentLines_append_inj hlines
  obtain ⟨hkindName, hcall⟩ :=
    t.kind.lacks_comma.append_separator_inj t'.kind.lacks_comma rfl hcall
  obtain ⟨hmethod, hcall⟩ := ht.method.append_separator_inj ht'.method rfl hcall
  obtain ⟨hparams, hresult⟩ :=
    Descriptor.text_inj ((String.append_left_inj _).mp hcall)
  have hkind := Kind.name_injective hkindName
  have hpromise : t.descriptor.isPromise = t'.descriptor.isPromise := by
    rw [Bool.eq_iff_iff, ← ht.promise, ← ht'.promise, hkind]
  refine ⟨?_, (List.cons.inj hend).2⟩
  obtain ⟨name, kind, method, ⟨params, result, isPromise⟩, args⟩ := t
  obtain ⟨name', kind', method', ⟨params', result', isPromise'⟩, args'⟩ := t'
  dsimp only at hname hkind hmethod hparams hresult hpromise
  simp only [Thunk.withoutArgs, hname, hkind, hmethod, hparams,
    hresult, hpromise]

/-! ### Classes -/

theorem Entry.line_eq (e : Entry) :
    e.line = "  methodMap_[\"" ++ (e.method ++ ("\"] = MethodMetadata \x7b" ++
      (toString e.arity ++ (", " ++ (e.thunk ++ "\x7d;"))))) := by
  unfold Entry.line
  generalize toString e.arity = digits
  simp only [String.append_assoc]

theorem delimited_entry :
    Delimited (fun e : Entry => Lacks '"' e.method) id (fun e => [e.line]) := by
  intro e e' he he' rest rest' h
  obtain ⟨hline, hrest⟩ := List.cons.inj h
  rw [Entry.line_eq, Entry.line_eq, String.append_right_inj] at hline
  obtain ⟨hmethod, hline⟩ := he.append_separator_inj he' rfl hline
  have hcomma : ∀ n : Nat, Lacks ',' (toString n) := lacks_toString (by decide)
  obtain ⟨harity, hline⟩ :=
    (hcomma e.arity).append_separator_inj (hcomma e'.arity) rfl hline
  have hthunk := (String.append_left_inj _).mp hline
  obtain ⟨method, arity, thunk⟩ := e
  obtain ⟨method', arity', thunk'⟩ := e'
  dsimp only at hmethod harity hthunk
  rw [hmethod, toString_nat_inj harity, hthunk]
  exact ⟨rfl, hrest⟩

theorem Entry.line_ne_brace (e : Entry) : e.line ≠ "\x7d" := by
  intro h
  rw [Entry.line_eq] at h
  exact append_ne_append rfl rfl (by decide) (by decide) _ ""
    (h.trans String.append_empty.symm)

theorem delimited_bridgeClass :
    Delimited (fun c : BridgeClass => ∀ e ∈ c.entries, Lacks '"' e.method) id
      BridgeClass.lines := by
  intro c c' hc hc' rest rest' h
  simp only [BridgeClass.lines, List.cons_append, List.nil_append,
    List.append_assoc, String.append_assoc] at h
  obtain ⟨hhead, hlines⟩ := List.cons.inj h
  have hname : c.name = c'.name := by
    apply append_separator_self_inj "::"
    apply (String.append_left_inj
      "(const JavaTurboModule::InitParams &params)").mp
    simpa only [String.append_assoc] using hhead
  have hentries : c.entries.flatMap (fun e => [e.line]) ++ "\x7d" :: rest =
      c'.entries.flatMap (fun e => [e.line]) ++ "\x7d" :: rest' := by
    simpa only [← List.map_eq_flatMap] using (List.cons.inj hlines).2
  have hbrace : ∀ (e : Entry) (tail tail' : List String),
      [e.line] ++ tail ≠ "\x7d" :: tail' :=
    fun e _ _ heq => e.line_ne_brace (List.cons.inj heq).1
  obtain ⟨hviews, hend⟩ := delimited_entry.flatMap_append_inj hc hc'
    (fun e _ tail => hbrace e tail rest)
    (fun e _ tail => hbrace e tail rest') hentries
  simp only [List.map_id] at hviews
  obtain ⟨name, entries⟩ := c
  obtain ⟨name', entries'⟩ := c'
  dsimp only at hname hviews
  rw [hname, hviews]
  exact ⟨rfl, (List.cons.inj hend).2⟩

/-! ### The provider -/

theorem delimited_case :
    Delimited (fun _ : ProviderCase => True) id ProviderCase.lines := by
  intro c c' _ _ rest rest' h
  simp only [ProviderCase.lines, List.cons_append, List.nil_append,
    String.append_assoc, List.cons.injEq, true_and, String.append_right_inj,
    String.append_left_inj] at h
  obtain ⟨hmodule, hclass, hrest⟩ := h
  obtain ⟨moduleName, className⟩ := c
  obtain ⟨moduleName', className'⟩ := c'
  dsimp only at hmodule hclass
  rw [hmodule, hclass]
  exact ⟨rfl, hrest⟩

theorem ProviderCase.lines_append_ne
    (c : ProviderCase) (rest rest' : List String) :
    c.lines ++ rest ≠ "  return nullptr;" :: rest' := by
  intro h
  have hhead := (List.cons.inj h).1
  rw [String.append_assoc] at hhead
  exact append_ne_append rfl rfl (by decide) (by decide) _ ""
    (hhead.trans String.append_empty.symm)

theorem delimited_provider :
    Delimited (fun _ : Provider => True) id Provider.lines := by
  intro p p' _ _ rest rest' h
  simp only [Provider.lines, List.cons_append, List.nil_append,
    List.append_assoc, String.append_assoc] at h
  obtain ⟨hhead, hlines⟩ := List.cons.inj h
  have hname : p.name = p'.name :=
    (String.append_left_inj _).mp ((String.append_right_inj _).mp hhead)
  obtain ⟨hcases, hend⟩ := delimited_case.flatMap_append_inj (by simp) (by simp)
    (fun c _ tail => c.lines_append_ne tail _)
    (fun c _ tail => c.lines_append_ne tail _) hlines
  simp only [List.map_id] at hcases
  obtain ⟨name, cases⟩ := p
  obtain ⟨name', cases'⟩ := p'
  dsimp only at hname hcases
  rw [hname, hcases]
  exact ⟨rfl, by simpa using hend⟩

/-! ### Declarations -/

/-- The fixed text with which a declaration begins. -/
def Item.opening : Item → String
  | thunk _ => "static facebook::jsi::Value "
  | bridgeClass _ => "Native"
  | provider _ => "std::shared_ptr<TurboModule> "

theorem Item.Legible.exists_lines_eq
    {item : Item} (hitem : item.Legible) (argComments : Bool) :
    ∃ s ls, item.lines argComments = (item.opening ++ s) :: ls := by
  cases item with
  | thunk t => exact ⟨_, _, t.lines_eq argComments⟩
  | bridgeClass c =>
      obtain ⟨⟨moduleName, hname⟩, -⟩ := hitem
      simp only [Item.lines, BridgeClass.lines, Item.opening, hname, className,
        String.append_assoc, List.cons_append]
      exact ⟨_, _, rfl⟩
  | provider p =>
      simp only [Item.lines, Provider.lines, Item.opening, String.append_assoc,
        List.cons_append]
      exact ⟨_, _, rfl⟩

theorem Item.opening_append_ne_brace (item : Item) (s s' : String) :
    item.opening ++ s ≠ "\x7d // namespace " ++ s' := by
  cases item <;> exact append_ne_append rfl rfl (by decide) (by decide) s s'

theorem delimited_item (argComments : Bool) :
    Delimited Item.Legible Item.withoutArgs (Item.lines argComments) := by
  intro item item' hitem hitem' rest rest' h
  obtain ⟨s, ls, hs⟩ := hitem.exists_lines_eq argComments
  obtain ⟨s', ls', hs'⟩ := hitem'.exists_lines_eq argComments
  have hfirst : item.opening ++ s = item'.opening ++ s' := by
    rw [hs, hs'] at h
    exact (List.cons.inj h).1
  -- Declarations of different sorts begin differently.
  have hthunk : ∀ u u' : String,
      "static facebook::jsi::Value " ++ u ≠ "Native" ++ u' :=
    append_ne_append rfl rfl (by decide) (by decide)
  have hclass : ∀ u u' : String,
      "Native" ++ u ≠ "std::shared_ptr<TurboModule> " ++ u' :=
    append_ne_append rfl rfl (by decide) (by decide)
  have hprovider : ∀ u u' : String,
      "std::shared_ptr<TurboModule> " ++ u ≠
        "static facebook::jsi::Value " ++ u' :=
    append_ne_append rfl rfl (by decide) (by decide)
  cases item with
  | thunk t =>
      cases item' with
      | thunk t' =>
          obtain ⟨hview, hrest⟩ :=
            delimited_thunk argComments t t' hitem hitem' rest rest' h
          exact ⟨congrArg Item.thunk hview, hrest⟩
      | bridgeClass c' => exact absurd hfirst (hthunk s s')
      | provider p' => exact absurd hfirst.symm (hprovider s' s)
  | bridgeClass c =>
      cases item' with
      | thunk t' => exact absurd hfirst.symm (hthunk s' s)
      | bridgeClass c' =>
          obtain ⟨hview, hrest⟩ :=
            delimited_bridgeClass c c' hitem.2 hitem'.2 rest rest' h
          exact ⟨congrArg Item.bridgeClass hview, hrest⟩
      | provider p' => exact absurd hfirst (hclass s s')
  | provider p =>
      cases item' with
      | thunk t' => exact absurd hfirst (hprovider s s')
      | bridgeClass c' => exact absurd hfirst.symm (hclass s' s)
      | provider p' =>
          obtain ⟨hview, hrest⟩ :=
            delimited_provider p p' hitem hitem' rest rest' h
          exact ⟨congrArg Item.provider hview, hrest⟩

/-! ## Line feeds -/

/-- The names that are written in a declaration. -/
def Item.names : Item → List String
  | thunk t => t.name :: t.method :: t.argNames
  | bridgeClass c => c.name :: c.entries.flatMap fun e => [e.method, e.thunk]
  | provider p => p.name :: p.cases.flatMap fun c => [c.moduleName, c.className]

theorem Descriptor.lacks_feed (d : Descriptor) : Lacks '\n' d.text := by
  have htoken : ∀ t : Token, Lacks '\n' t.text := by
    intro t
    cases t <;> exact lacks_ofList rfl (by decide)
  unfold Descriptor.text
  simp only [lacks_append_iff, lacks_join_iff, List.forall_mem_map]
  exact ⟨⟨⟨lacks_ofList rfl (by decide), fun t _ => htoken t⟩,
    lacks_ofList rfl (by decide)⟩, htoken d.result⟩

theorem Thunk.lacks_feed_of_mem_lines
    {t : Thunk} (hname : Lacks '\n' t.name) (hmethod : Lacks '\n' t.method)
    (hargs : ∀ a ∈ t.argNames, Lacks '\n' a) (argComments : Bool) :
    ∀ l ∈ t.lines argComments, Lacks '\n' l := by
  have hkind : Lacks '\n' t.kind.name := by
    cases t.kind <;> exact lacks_ofList rfl (by decide)
  have hcomment : ∀ l ∈ t.commentLines argComments, Lacks '\n' l := by
    unfold Thunk.commentLines
    split
    · rw [List.forall_mem_singleton, lacks_append_iff]
      exact ⟨lacks_ofList rfl (by decide),
        lacks_intercalate (lacks_ofList rfl (by decide)) hargs⟩
    · simp
  have hopening : Lacks '\n' callOpening := lacks_ofList rfl (by decide)
  simp only [Thunk.lines_eq, List.forall_mem_append, List.forall_mem_cons,
    List.not_mem_nil, false_implies, implies_true, and_true]
  refine ⟨?_, hcomment, ?_, lacks_ofList rfl (by decide)⟩
  · simp only [lacks_append_iff, hname, true_and]
    and_intros <;> exact lacks_ofList rfl (by decide)
  · simp only [lacks_append_iff, hopening, hkind, hmethod,
      t.descriptor.lacks_feed, true_and]
    and_intros <;> exact lacks_ofList rfl (by decide)

theorem Entry.lacks_feed
    {e : Entry} (hmethod : Lacks '\n' e.method) (hthunk : Lacks '\n' e.thunk) :
    Lacks '\n' e.line := by
  have harity : Lacks '\n' (toString e.arity) :=
    lacks_toString (by decide) e.arity
  rw [Entry.line_eq]
  generalize toString e.arity = digits at harity ⊢
  simp only [lacks_append_iff, hmethod, hthunk, harity, true_and]
  and_intros <;> exact lacks_ofList rfl (by decide)

theorem BridgeClass.lacks_feed_of_mem_lines
    {c : BridgeClass} (hname : Lacks '\n' c.name)
    (hentries : ∀ e ∈ c.entries, Lacks '\n' e.method ∧ Lacks '\n' e.thunk) :
    ∀ l ∈ c.lines, Lacks '\n' l := by
  simp only [BridgeClass.lines, List.forall_mem_append, List.forall_mem_cons,
    List.forall_mem_map, List.not_mem_nil, false_implies, implies_true,
    and_true]
  refine ⟨⟨⟨?_, lacks_ofList rfl (by decide)⟩, ?_⟩,
    lacks_ofList rfl (by decide)⟩
  · simp only [lacks_append_iff, hname, true_and, and_true]
    and_intros <;> exact lacks_ofList rfl (by decide)
  · intro e he
    exact Entry.lacks_feed (hentries e he).1 (hentries e he).2

theorem ProviderCase.lacks_feed_of_mem_lines
    {c : ProviderCase} (hmodule : Lacks '\n' c.moduleName)
    (hclass : Lacks '\n' c.className) :
    ∀ l ∈ c.lines, Lacks '\n' l := by
  simp only [ProviderCase.lines, List.forall_mem_cons, List.not_mem_nil,
    false_implies, implies_true, and_true, lacks_append_iff, hmodule, hclass]
  and_intros <;> exact lacks_ofList rfl (by decide)

theorem Provider.lacks_feed_of_mem_lines
    {p : Provider} (hname : Lacks '\n' p.name)
    (hcases : ∀ c ∈ p.cases, Lacks '\n' c.moduleName ∧ Lacks '\n' c.className) :
    ∀ l ∈ p.lines, Lacks '\n' l := by
  simp only [Provider.lines, List.forall_mem_append, List.forall_mem_cons,
    List.not_mem_nil, false_implies, implies_true, and_true]
  refine ⟨⟨?_, ?_⟩, lacks_ofList rfl (by decide), lacks_ofList rfl (by decide)⟩
  · simp only [lacks_append_iff, hname, and_true]
    and_intros <;> exact lacks_ofList rfl (by decide)
  · intro l hl
    obtain ⟨c, hc, hline⟩ := List.mem_flatMap.mp hl
    exact ProviderCase.lacks_feed_of_mem_lines
      (hcases c hc).1 (hcases c hc).2 l hline

/-- Names without a line feed are written into single lines. -/
theorem Item.lacks_feed_of_mem_lines
    {item : Item} (hnames : ∀ n ∈ item.names, Lacks '\n' n)
    (argComments : Bool) :
    ∀ l ∈ item.lines argComments, Lacks '\n' l := by
  cases item with
  | thunk t =>
      unfold Item.names at hnames
      rw [List.forall_mem_cons, List.forall_mem_cons] at hnames
      exact Thunk.lacks_feed_of_mem_lines
        hnames.1 hnames.2.1 hnames.2.2 argComments
  | bridgeClass c =>
      unfold Item.names at hnames
      rw [List.forall_mem_cons] at hnames
      apply BridgeClass.lacks_feed_of_mem_lines hnames.1
      intro e he
      exact ⟨hnames.2 _ (List.mem_flatMap.mpr ⟨e, he, by simp⟩),
        hnames.2 _ (List.mem_flatMap.mpr ⟨e, he, by simp⟩)⟩
  | provider p =>
      unfold Item.names at hnames
      rw [List.forall_mem_cons] at hnames
      apply Provider.lacks_feed_of_mem_lines hnames.1
      intro c hc
      exact ⟨hnames.2 _ (List.mem_flatMap.mpr ⟨c, hc, by simp⟩),
        hnames.2 _ (List.mem_flatMap.mpr ⟨c, hc, by simp⟩)⟩

end NativeGlue.Bridge
