import NativeGlue.Proofs.Offences

/-!
# Types as written and as converted

Conversion reads a type off a raw type, tag by tag.  This module states beside
it what the two have in common at every level, and shows that conversion gives a
type exactly when it has all of that in common with the raw one.  What the tag
of a raw type does not use never matters, and every type can be written.
-/

namespace NativeGlue

/-! ## The parts of types -/

namespace TypeExpr

/-- The name that a type gives: that of a reserved scalar or of an alias. -/
def name? : TypeExpr → Option String
  | reserved scalar _ => some scalar.name
  | reference name => some name
  | _ => none

/-- The members that a type declares. -/
def properties : TypeExpr → List Property
  | object (.structural properties) _ => properties
  | _ => []

/-- The type of the elements that a type declares. -/
def element? : TypeExpr → Option TypeExpr
  | array element _ => element
  | _ => none

end TypeExpr

/-- The parts of a raw type besides its tag. -/
inductive Raw.Part where
  | nullable
  | name
  | properties
  | element
deriving DecidableEq

/-- The parts that a raw type with the given tag uses. -/
def Tag.parts : Tag → List Raw.Part
  | void => []
  | string | boolean | number | double | float | int32 => [.nullable]
  | genericObject | callback | promise => [.nullable]
  | reserved => [.nullable, .name]
  | object => [.nullable, .properties]
  | array => [.nullable, .element]
  | reference => [.name]

/-- Whether a tag as written uses a part; an unknown one uses none. -/
def Raw.tagUses (tag : String) (part : Raw.Part) : Bool :=
  (Tag.ofName? tag).any (part ∈ ·.parts)

@[simp] theorem Raw.tagUses_name (tag : Tag) (part : Raw.Part) :
    Raw.tagUses tag.name part = decide (part ∈ tag.parts) := by
  rw [Raw.tagUses, Tag.ofName?_name]
  rfl

namespace Raw

mutual

/-- The raw type with nothing but what its tags use, at every level. -/
def TypeExpr.cleared : TypeExpr → TypeExpr
  | ⟨tag, nullable, name, properties, element⟩ =>
    { tag := tag
      nullable := tagUses tag .nullable && nullable
      name := if tagUses tag .name then name else none
      properties :=
        if tagUses tag .properties then
          match properties with
          | none => none
          | some properties => some (clearedProperties properties)
        else none
      element :=
        if tagUses tag .element then
          match element with
          | none => none
          | some element => some element.cleared
        else none }
termination_by structural raw => raw

def Property.cleared : Property → Property
  | ⟨name, optional, type⟩ => ⟨name, optional, type.cleared⟩
termination_by structural raw => raw

def clearedProperties : List Property → List Property
  | [] => []
  | p :: ps => p.cleared :: clearedProperties ps
termination_by structural raw => raw

end

/-- A property of raw types holds of the types among the parts of one. -/
structure TypeExpr.ForParts (P : TypeExpr → Prop) (raw : TypeExpr) : Prop where
  properties : ∀ ps, raw.properties = some ps → ∀ p ∈ ps, P p.type
  element : ∀ element, raw.element = some element → P element

mutual

/-- What holds of a raw type once it holds of its parts holds of all raw
types. -/
theorem TypeExpr.induction_parts
    {P : TypeExpr → Prop} (node : ∀ raw : TypeExpr, raw.ForParts P → P raw) :
    ∀ raw : TypeExpr, P raw
  | ⟨_, _, _, properties, element⟩ => by
    apply node
    constructor
    · intro ps hps
      cases properties with
      | none => cases hps
      | some properties =>
          cases hps
          exact forall_properties_of_parts node ps
    · intro r hr
      cases element with
      | none => cases hr
      | some element =>
          cases hr
          exact TypeExpr.induction_parts node r

theorem forall_properties_of_parts
    {P : TypeExpr → Prop} (node : ∀ raw : TypeExpr, raw.ForParts P → P raw) :
    ∀ ps : List Property, ∀ p ∈ ps, P p.type
  | [] => by simp
  | ⟨_, _, type⟩ :: ps => by
    rw [List.forall_mem_cons]
    exact ⟨TypeExpr.induction_parts node type,
      forall_properties_of_parts node ps⟩

end

/-- The members that conversion looks at; absent ones read as none. -/
def TypeExpr.usedProperties (raw : TypeExpr) : List Property :=
  if tagUses raw.tag .properties then raw.properties.getD [] else []

/-- The type of elements that conversion looks at. -/
def TypeExpr.usedElement? (raw : TypeExpr) : Option TypeExpr :=
  if tagUses raw.tag .element then raw.element else none

end Raw

mutual

/-- A type says what a raw type says, at every level that the tags reach. -/
inductive Mirrors : Raw.TypeExpr → TypeExpr → Prop where
  | node {raw : Raw.TypeExpr} {type : TypeExpr}
      (tag : type.tag.name = raw.tag)
      (nullable : type.isNullable =
        if type.tag = .void ∨ type.tag = .reference then false
        else raw.nullable)
      (name : type.name? = if Raw.tagUses raw.tag .name then raw.name else none)
      (properties : MirrorsProperties raw.usedProperties type.properties)
      (element : MirrorsElement raw.usedElement? type.element?) :
      Mirrors raw type

/-- Members correspond in order, with the same names and flags. -/
inductive MirrorsProperties : List Raw.Property → List Property → Prop where
  | nil : MirrorsProperties [] []
  | cons {raw : Raw.Property} {p : Property} {raws : List Raw.Property}
      {ps : List Property}
      (name : p.name = raw.name) (optional : p.optional = raw.optional)
      (type : Mirrors raw.type p.type) (rest : MirrorsProperties raws ps) :
      MirrorsProperties (raw :: raws) (p :: ps)

inductive MirrorsElement : Option Raw.TypeExpr → Option TypeExpr → Prop where
  | none : MirrorsElement none none
  | some {raw : Raw.TypeExpr} {element : TypeExpr}
      (type : Mirrors raw element) :
      MirrorsElement (some raw) (some element)

end

mutual

/-- A raw type that stands for a type. -/
def TypeExpr.toRaw : TypeExpr → Raw.TypeExpr
  | .object (.structural properties) nullable =>
    ⟨Tag.object.name, nullable, none, some (propertiesToRaw properties), none⟩
  | .array (some element) nullable =>
    ⟨Tag.array.name, nullable, none, none, some element.toRaw⟩
  | type => ⟨type.tag.name, type.isNullable, type.name?, none, none⟩
termination_by structural type => type

def Property.toRaw : Property → Raw.Property
  | ⟨name, optional, type⟩ => ⟨name, optional, type.toRaw⟩
termination_by structural p => p

def propertiesToRaw : List Property → List Raw.Property
  | [] => []
  | p :: ps => p.toRaw :: propertiesToRaw ps
termination_by structural ps => ps

end

/-! ## Conversion -/

theorem mirrors_of_tag
    {raw : Raw.TypeExpr} {type : TypeExpr} (htag : raw.tag = type.tag.name)
    (hnullable : type.isNullable =
      if type.tag = .void ∨ type.tag = .reference then false else raw.nullable)
    (hname : type.name? = if .name ∈ type.tag.parts then raw.name else none)
    (hproperties : MirrorsProperties
      (if .properties ∈ type.tag.parts then raw.properties.getD [] else [])
      type.properties)
    (helement : MirrorsElement
      (if .element ∈ type.tag.parts then raw.element else none) type.element?) :
    Mirrors raw type := by
  refine .node htag.symm hnullable ?_ ?_ ?_
  · simpa [htag] using hname
  · simpa [Raw.TypeExpr.usedProperties, htag] using hproperties
  · simpa [Raw.TypeExpr.usedElement?, htag] using helement

theorem propertiesOfRaw_cons_eq_ok_iff
    {raw : Raw.Property} {raws : List Raw.Property} {ps : List Property} :
    propertiesOfRaw (raw :: raws) = .ok ps ↔
      ∃ type rest, TypeExpr.ofRaw raw.type = .ok type ∧
        propertiesOfRaw raws = .ok rest ∧
        ps = ⟨raw.name, raw.optional, type⟩ :: rest := by
  obtain ⟨name, optional, raw⟩ := raw
  rw [propertiesOfRaw, Property.ofRaw, bind_eq_ok_iff]
  constructor
  · rintro ⟨p, hp, hdone⟩
    obtain ⟨type, htype, hp⟩ := bind_eq_ok_iff.mp hp
    obtain ⟨rest, hrest, hps⟩ := bind_eq_ok_iff.mp hdone
    cases hp
    cases hps
    exact ⟨type, rest, htype, hrest, rfl⟩
  · rintro ⟨type, rest, htype, hrest, rfl⟩
    exact ⟨_, bind_eq_ok_iff.mpr ⟨type, htype, rfl⟩,
      bind_eq_ok_iff.mpr ⟨rest, hrest, rfl⟩⟩

/-- If the types of members are converted to what mirrors them, so are the
members. -/
theorem propertiesOfRaw_eq_ok_iff_of_types
    {raws : List Raw.Property}
    (htypes : ∀ raw ∈ raws, ∀ type,
      TypeExpr.ofRaw raw.type = .ok type ↔ Mirrors raw.type type)
    (ps : List Property) :
    propertiesOfRaw raws = .ok ps ↔ MirrorsProperties raws ps := by
  induction raws generalizing ps with
  | nil =>
      rw [propertiesOfRaw]
      constructor
      · intro h
        cases h
        exact .nil
      · intro h
        cases h
        rfl
  | cons raw raws ih =>
      obtain ⟨hraw, hraws⟩ := List.forall_mem_cons.mp htypes
      rw [propertiesOfRaw_cons_eq_ok_iff]
      constructor
      · rintro ⟨type, rest, htype, hrest, rfl⟩
        exact .cons rfl rfl ((hraw type).mp htype) ((ih hraws rest).mp hrest)
      · intro h
        cases h with
        | @cons _ p _ rest hname hoptional htype hrest =>
            refine ⟨p.type, rest, (hraw p.type).mpr htype,
              (ih hraws rest).mpr hrest, ?_⟩
            obtain ⟨_, _, _⟩ := p
            cases hname
            cases hoptional
            rfl

section Parts

variable {raw : Raw.TypeExpr} {type : TypeExpr}
  (hparts : raw.ForParts fun r => ∀ t, TypeExpr.ofRaw r = .ok t ↔ Mirrors r t)

include hparts

theorem mirrors_of_ofRaw_of_parts (h : TypeExpr.ofRaw raw = .ok type) :
    Mirrors raw type := by
  obtain ⟨tag, nullable, name, properties, element⟩ := raw
  rw [TypeExpr.ofRaw.eq_def] at h
  dsimp only at h
  cases htag : Tag.ofName? tag with
  | none =>
      rw [htag] at h
      cases h
  | some known =>
      rw [htag] at h
      obtain rfl := Tag.ofName?_eq_some_iff.mp htag
      cases known with
      | reserved =>
          dsimp only at h
          split at h
          · rename_i scalar hscalar
            cases h
            have hname := ReservedScalar.ofName?_getD_eq_some_iff.mp hscalar
            exact mirrors_of_tag rfl rfl hname.symm .nil .none
          · cases h
      | object =>
          cases properties with
          | none =>
              cases h
              exact mirrors_of_tag rfl rfl rfl .nil .none
          | some raws =>
              obtain ⟨ps, hps, hdone⟩ := bind_eq_ok_iff.mp h
              cases hdone
              have hraws := propertiesOfRaw_eq_ok_iff_of_types
                (hparts.properties raws rfl) ps
              exact mirrors_of_tag rfl rfl rfl (hraws.mp hps) .none
      | array =>
          cases element with
          | none =>
              cases h
              exact mirrors_of_tag rfl rfl rfl .nil .none
          | some r =>
              obtain ⟨t, ht, hdone⟩ := bind_eq_ok_iff.mp h
              cases hdone
              exact mirrors_of_tag rfl rfl rfl .nil
                (.some ((hparts.element r rfl t).mp ht))
      | reference =>
          cases name with
          | none => cases h
          | some name =>
              cases h
              exact mirrors_of_tag rfl rfl rfl .nil .none
      | void | string | boolean | number | double | float | int32
      | genericObject | callback | promise =>
          cases h
          exact mirrors_of_tag rfl rfl rfl .nil .none

theorem ofRaw_of_mirrors_of_parts (h : Mirrors raw type) :
    TypeExpr.ofRaw raw = .ok type := by
  obtain ⟨htag, hnullable, hname, hps, ht⟩ := h
  obtain ⟨tag, nullable, name, properties, element⟩ := raw
  dsimp only at htag hnullable hname
  subst htag
  rw [Raw.tagUses_name] at hname
  rw [Raw.TypeExpr.usedProperties, Raw.tagUses_name] at hps
  rw [Raw.TypeExpr.usedElement?, Raw.tagUses_name] at ht
  rw [TypeExpr.ofRaw.eq_def]
  simp only [Tag.ofName?_name]
  -- The raw type has the tag of the type, so the constructors of the type tell
  -- which branch of the conversion is taken.
  cases type with
  | void => rfl
  | string | boolean | callback | promise =>
      obtain rfl := hnullable
      rfl
  | numeric flavour _ =>
      cases flavour <;> obtain rfl := hnullable <;> rfl
  | reserved scalar _ =>
      obtain rfl := hnullable
      obtain rfl : some scalar.name = name := hname
      have hscalar :
          ReservedScalar.ofName? ((some scalar.name).getD "") = some scalar :=
        ReservedScalar.ofName?_getD_eq_some_iff.mpr rfl
      simp only [TypeExpr.tag, hscalar]
      rfl
  | object shape _ =>
      cases shape with
      | generic =>
          obtain rfl := hnullable
          rfl
      | structural ps =>
          obtain rfl := hnullable
          cases properties with
          | none =>
              cases hps
              rfl
          | some raws =>
              have hraws := (propertiesOfRaw_eq_ok_iff_of_types
                (hparts.properties raws rfl) ps).mpr hps
              simp only [TypeExpr.tag, hraws]
              rfl
  | array element' _ =>
      obtain rfl := hnullable
      cases element with
      | none =>
          cases ht
          rfl
      | some r =>
          cases ht with
          | @some _ t hr =>
              have hr := (hparts.element r rfl t).mpr hr
              simp only [TypeExpr.tag, hr]
              rfl
  | reference name' =>
      obtain rfl : some name' = name := hname
      rfl

end Parts

/-- Conversion gives a type exactly when it mirrors the raw one. -/
theorem TypeExpr.ofRaw_eq_ok_iff (raw : Raw.TypeExpr) (type : TypeExpr) :
    TypeExpr.ofRaw raw = .ok type ↔ Mirrors raw type := by
  induction raw using Raw.TypeExpr.induction_parts generalizing type with
  | node raw hparts =>
      exact ⟨mirrors_of_ofRaw_of_parts hparts, ofRaw_of_mirrors_of_parts hparts⟩

/-! ## Parts that are not used -/

theorem propertiesOfRaw_cleared_of_types
    {raws : List Raw.Property}
    (htypes : ∀ raw ∈ raws,
      TypeExpr.ofRaw raw.type.cleared = TypeExpr.ofRaw raw.type) :
    propertiesOfRaw (Raw.clearedProperties raws) = propertiesOfRaw raws := by
  induction raws with
  | nil => rfl
  | cons raw raws ih =>
      obtain ⟨hraw, hraws⟩ := List.forall_mem_cons.mp htypes
      obtain ⟨name, optional, type⟩ := raw
      rw [Raw.clearedProperties, Raw.Property.cleared, propertiesOfRaw,
        propertiesOfRaw, Property.ofRaw, Property.ofRaw, hraw, ih hraws]

/-- Clearing what the tags do not use changes nothing, neither a result nor an
error. -/
@[simp] theorem TypeExpr.ofRaw_cleared (raw : Raw.TypeExpr) :
    TypeExpr.ofRaw raw.cleared = TypeExpr.ofRaw raw := by
  induction raw using Raw.TypeExpr.induction_parts with
  | node raw hparts =>
      obtain ⟨tag, nullable, name, properties, element⟩ := raw
      rw [Raw.TypeExpr.cleared.eq_def, TypeExpr.ofRaw.eq_def,
        TypeExpr.ofRaw.eq_def ⟨tag, nullable, name, properties, element⟩]
      dsimp only
      cases htag : Tag.ofName? tag with
      | none => rfl
      | some known =>
          obtain rfl := Tag.ofName?_eq_some_iff.mp htag
          simp only [Raw.tagUses_name]
          cases known with
          | object =>
              cases properties with
              | none => rfl
              | some raws =>
                  have hraws := propertiesOfRaw_cleared_of_types
                    (hparts.properties raws rfl)
                  simp [Tag.parts, hraws]
          | array =>
              cases element with
              | none => rfl
              | some r =>
                  have hr := hparts.element r rfl
                  simp [Tag.parts, hr]
          | void | string | boolean | number | double | float | int32 | reserved
          | genericObject | callback | promise | reference => rfl

/-! ## Types that can be written -/

mutual

theorem mirrors_toRaw : ∀ type : TypeExpr, Mirrors type.toRaw type
  | .object (.structural properties) _ =>
    mirrors_of_tag rfl rfl rfl (mirrorsProperties_toRaw properties) .none
  | .array (some element) _ =>
    mirrors_of_tag rfl rfl rfl .nil (.some (mirrors_toRaw element))
  | .numeric flavour _ => by
    cases flavour <;> exact mirrors_of_tag rfl rfl rfl .nil .none
  | .void | .string _ | .boolean _ | .reserved _ _ | .object .generic _
  | .array none _ | .callback _ | .promise _ | .reference _ =>
    mirrors_of_tag rfl rfl rfl .nil .none

theorem mirrorsProperties_toRaw :
    ∀ ps : List Property, MirrorsProperties (propertiesToRaw ps) ps
  | [] => .nil
  | ⟨_, _, type⟩ :: ps =>
    .cons rfl rfl (mirrors_toRaw type) (mirrorsProperties_toRaw ps)

end

/-- A type is converted from a raw one exactly if it says what the raw one says,
at every level and under the same tags.  The rest of the raw type plays no part,
not even in an error, and every type is converted from some raw type. -/
theorem TypeExpr.ofRaw_mirrors :
    (∀ (raw : Raw.TypeExpr) (type : TypeExpr),
      TypeExpr.ofRaw raw = .ok type ↔ Mirrors raw type) ∧
    (∀ raw : Raw.TypeExpr, TypeExpr.ofRaw raw.cleared = TypeExpr.ofRaw raw) ∧
    ∀ type : TypeExpr, TypeExpr.ofRaw type.toRaw = .ok type := by
  refine ⟨TypeExpr.ofRaw_eq_ok_iff, TypeExpr.ofRaw_cleared, ?_⟩
  intro type
  exact (TypeExpr.ofRaw_eq_ok_iff _ _).mpr (mirrors_toRaw type)

end NativeGlue
