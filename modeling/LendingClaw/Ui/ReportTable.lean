/-
LendingClaw.Ui.ReportTable — reports in the table dialect: which ones the
renderer can walk without taking an inherited value for an element.

`table_renders_iff` is the exact condition, on the JSON of the report.
-/
import LendingClaw.Ui.ReportSpec
import Mathlib.Data.List.Nodup

namespace LendingClaw.Ui

open LendingClaw.Lib

/-! ## Tables of pairs -/

section

variable {β : Type}

theorem lookup_append_singleton {l : List (String × β)} {id : String} (b : β)
    (h : l.lookup id = none) (x : String) :
    (l ++ [(id, b)]).lookup x = if x = id then some b else l.lookup x := by
  rw [List.lookup_append]
  by_cases hx : x = id
  · rw [if_pos hx, hx, h]
    simp
  · rw [if_neg hx]
    simp [List.lookup_cons, beq_false_of_ne hx]

/-- An update of an entry in its place. -/
theorem lookup_replace (l : List (String × β)) (id : String) (b : β) (x : String) :
    (l.map (fun e => if e.1 = id then (id, b) else e)).lookup x
      = if x = id then (l.lookup id).map (fun _ => b) else l.lookup x := by
  induction l with
  | nil => simp
  | cons e l ih =>
    rw [List.map_cons, List.lookup_cons, List.lookup_cons, List.lookup_cons, ih]
    by_cases he : e.1 = id
    · rw [if_pos he, he, beq_self_eq_true]
      by_cases hx : x = id
      · simp [hx]
      · simp [hx, beq_false_of_ne hx]
    · rw [if_neg he, beq_false_of_ne (Ne.symm he)]
      by_cases hx : x = id
      · simp [hx, beq_false_of_ne (Ne.symm he)]
      · simp [hx]

theorem any_key (l : List (String × β)) (id : String) :
    l.any (fun e => e.1 = id) = (l.lookup id).isSome := by
  rw [Bool.eq_iff_iff, List.lookup_isSome_iff, List.any_eq_true]
  constructor
  · intro h
    obtain ⟨e, he, hid⟩ := h
    exact ⟨e, he, beq_iff_eq.mpr (of_decide_eq_true hid).symm⟩
  · intro h
    obtain ⟨e, he, hid⟩ := h
    exact ⟨e, he, decide_eq_true (beq_iff_eq.mp hid).symm⟩

theorem lookup_eq_none {l : List (String × β)} {id : String} (h : id ∉ l.map Prod.fst) :
    l.lookup id = none := by
  rw [List.lookup_eq_none_iff]
  intro p hp
  exact bne_iff_ne.mpr fun heq => h (List.mem_map.mpr ⟨p, hp, heq.symm⟩)

/-- The entries of a table without duplicates. -/
theorem mem_iff_lookup {l : List (String × β)} (h : (l.map Prod.fst).Nodup) (entry : String × β) :
    entry ∈ l ↔ l.lookup entry.1 = some entry.2 := by
  induction l with
  | nil => simp
  | cons e l ih =>
    obtain ⟨hnot, hrest⟩ := List.nodup_cons.mp h
    rw [List.mem_cons, ih hrest, List.lookup_cons]
    by_cases hkey : entry.1 = e.1
    · have hnone : l.lookup entry.1 = none := lookup_eq_none (hkey ▸ hnot)
      rw [hnone, beq_iff_eq.mpr hkey]
      constructor
      · intro hmem
        rcases hmem with rfl | habsurd
        · rfl
        · cases habsurd
      · intro heq
        exact .inl (Prod.ext hkey (Option.some.inj heq).symm)
    · rw [beq_false_of_ne hkey]
      exact or_iff_right fun heq => hkey (congrArg Prod.fst heq)

end

/-! ## Elements -/

namespace Elements

variable (es : Elements)

/-- What an assignment does to the entries. -/
theorem lookup_set {id : String} (element : ReportElement) (hproto : es.own.lookup "__proto__" = none)
    (x : String) :
    (es.set id element).own.lookup x
      = if x = id ∧ id ≠ "__proto__" then some element else es.own.lookup x := by
  unfold set
  rw [any_key]
  cases hid : es.own.lookup id with
  | some old =>
    have hne : id ≠ "__proto__" := by
      rintro rfl
      rw [hproto] at hid
      cases hid
    rw [Option.isSome_some, if_pos rfl]
    show (es.own.map _).lookup x = _
    rw [lookup_replace, hid]
    by_cases hx : x = id
    · rw [if_pos hx, if_pos ⟨hx, hne⟩]
      rfl
    · rw [if_neg hx, if_neg (fun h => hx h.1)]
  | none =>
    rw [Option.isSome_none, if_neg Bool.false_ne_true]
    by_cases hp : id = "__proto__"
    · rw [if_pos hp, if_neg (fun h => h.2 hp)]
    · rw [if_neg hp]
      show (es.own ++ [(id, element)]).lookup x = _
      rw [lookup_append_singleton element hid]
      by_cases hx : x = id
      · rw [if_pos hx, if_pos ⟨hx, hp⟩]
      · rw [if_neg hx, if_neg (fun h => hx h.1)]

theorem proto_set {id : String} (element : ReportElement) (hproto : es.own.lookup "__proto__" = none) :
    (es.set id element).proto = if id = "__proto__" then some element else es.proto := by
  unfold set
  rw [any_key]
  by_cases hp : id = "__proto__"
  · rw [hp, hproto, Option.isSome_none, if_neg Bool.false_ne_true]
    rfl
  · rw [if_neg hp, if_neg hp]
    split
    · rfl
    · rfl

/-- No two entries have the same id. -/
theorem nodup_set {id : String} (element : ReportElement) (h : (es.own.map Prod.fst).Nodup) :
    ((es.set id element).own.map Prod.fst).Nodup := by
  unfold set
  rw [any_key]
  split
  · have hkeys : (es.own.map (fun e => if e.1 = id then (id, element) else e)).map Prod.fst
        = es.own.map Prod.fst := by
      rw [List.map_map]
      refine List.map_congr_left fun e _ => ?_
      show (if e.1 = id then (id, element) else e).1 = e.1
      split
      · rename_i he
        exact he.symm
      · rfl
    show ((es.own.map _).map Prod.fst).Nodup
    rw [hkeys]
    exact h
  · rename_i hsome
    split
    · exact h
    · show ((es.own ++ [(id, element)]).map Prod.fst).Nodup
      rw [List.map_append, List.nodup_append]
      refine ⟨h, List.nodup_singleton id, fun a ha b hb => ?_⟩
      rintro rfl
      obtain ⟨e, he, rfl⟩ := List.mem_map.mp ha
      exact hsome (List.lookup_isSome_iff.mpr ⟨e, he, beq_iff_eq.mpr (List.mem_singleton.mp hb).symm⟩)

theorem get_eq_own_iff {id : String} {element : ReportElement} :
    es.get id = .own element ↔ es.own.lookup id = some element := by
  unfold get
  cases es.own.lookup id with
  | some e =>
    constructor
    · intro h
      exact congrArg some (Found.own.inj h)
    · intro h
      exact congrArg Found.own (Option.some.inj h)
  | none =>
    constructor
    · intro h
      cases hproto : es.proto with
      | none =>
        rw [hproto] at h
        dsimp only at h
        split at h
        · cases h
        · cases h
      | some proto =>
        rw [hproto] at h
        dsimp only at h
        split at h
        · split at h
          · cases h
          · cases h
        · split at h
          · cases h
          · cases h
    · intro h
      cases h

end Elements

/-! ## The traversal -/

/-- The ids that the traversal looks up, starting from one, with some
levels left and some ids on the way to it. -/
def Reaches (children : String → Option (List String)) : Nat → String → List String → String → Prop
  | 0, id, _, x => x = id
  | n + 1, id, seen, x =>
    x = id ∨ (id ∉ seen ∧ ∃ cs, children id = some cs ∧ ∃ c ∈ cs, Reaches children n c (id :: seen) x)

theorem Reaches.head (children : String → Option (List String)) (n : Nat) (id : String)
    (seen : List String) : Reaches children n id seen id := by
  cases n with
  | zero => exact rfl
  | succ n => exact .inl rfl

/-- The children of the entries of a table. -/
def Elements.childrenOf (es : Elements) (id : String) : Option (List String) :=
  (es.own.lookup id).map ReportElement.children

theorem safeAll_iff (rs : List Rendered) : Rendered.safeAll rs = true ↔ ∀ r ∈ rs, r.safe = true := by
  induction rs with
  | nil => simp [Rendered.safeAll]
  | cons r rs ih => simp [Rendered.safeAll, ih]

theorem Elements.childrenOf_own (es : Elements) {id : String} {element : ReportElement}
    (hget : es.get id = .own element) : es.childrenOf id = some element.children := by
  unfold Elements.childrenOf
  rw [(es.get_eq_own_iff).mp hget]
  rfl

theorem Elements.childrenOf_missing (es : Elements) {id : String} (hget : es.get id = .missing) :
    es.childrenOf id = none := by
  cases hchildren : es.childrenOf id with
  | none => rfl
  | some cs =>
    obtain ⟨element, helement, _⟩ := Option.map_eq_some_iff.mp hchildren
    cases hget.symm.trans ((es.get_eq_own_iff).mpr helement)

/-- The traversal is safe if it looks up no inherited value. -/
theorem safe_iff (es : Elements) (n : Nat) (id : String) (seen : List String) :
    (renderedElement es n id seen).safe = true
      ↔ ∀ x, Reaches es.childrenOf n id seen x → es.get x ≠ .inherited := by
  induction n generalizing id seen with
  | zero =>
    unfold renderedElement
    cases hget : es.get id with
    | missing =>
      refine ⟨fun _ x hx => ?_, fun _ => rfl⟩
      rw [show x = id from hx, hget]
      exact nofun
    | inherited =>
      refine ⟨fun h => absurd h (by simp [Rendered.safe]), fun h => ?_⟩
      exact absurd hget (h id rfl)
    | own element =>
      refine ⟨fun _ x hx => ?_, fun _ => rfl⟩
      rw [show x = id from hx, hget]
      exact nofun
  | succ n ih =>
    unfold renderedElement
    cases hget : es.get id with
    | missing =>
      refine ⟨fun _ x hx => ?_, fun _ => rfl⟩
      rcases hx with rfl | ⟨_, cs, hcs, _⟩
      · rw [hget]
        exact nofun
      · cases (es.childrenOf_missing hget).symm.trans hcs
    | inherited =>
      refine ⟨fun h => absurd h (by simp [Rendered.safe]), fun h => ?_⟩
      exact absurd hget (h id (.inl rfl))
    | own element =>
      have hchildren := es.childrenOf_own hget
      have hown : es.get id ≠ .inherited := by
        rw [hget]
        exact nofun
      dsimp only
      by_cases hseen : id ∈ seen
      · rw [if_pos (List.contains_iff_mem.mpr hseen)]
        refine ⟨fun _ x hx => ?_, fun _ => rfl⟩
        rcases hx with rfl | ⟨hnot, _⟩
        · exact hown
        · exact absurd hseen hnot
      · rw [if_neg (mt List.contains_iff_mem.mp hseen)]
        show Rendered.safeAll _ = true ↔ _
        rw [safeAll_iff, List.forall_mem_map]
        constructor
        · intro h x hx
          rcases hx with rfl | ⟨_, cs, hcs, c, hc, hreach⟩
          · exact hown
          · obtain rfl := Option.some.inj (hchildren.symm.trans hcs)
            exact (ih c (id :: seen)).mp (h c hc) x hreach
        · intro h c hc
          exact (ih c (id :: seen)).mpr fun x hreach =>
            h x (.inr ⟨hseen, element.children, hchildren, c, hc, hreach⟩)

/-! ## Reading the entries -/

theorem lastField_cons (entry : String × Json) (entries : List (String × Json)) (id : String) :
    lastField (entry :: entries) id
      = (lastField entries id).or (if entry.1 = id then some entry.2 else none) := by
  unfold lastField Json.field
  dsimp only
  rw [List.reverse_cons, List.find?_append]
  cases entries.reverse.find? (fun f => f.1 = id) with
  | some f => rfl
  | none =>
    rw [Option.none_or]
    by_cases h : entry.1 = id
    · simp [h]
    · simp [h]

/-- The type and the props of an entry. -/
def entryType (value : Json) : String :=
  ((lastField (recordFields (some value)) "type").bind Json.text?).getD ""

def entryProps (value : Json) : Props :=
  { fields := recordFields (lastField (recordFields (some value)) "props") }

section

variable (env : ReportEnv)

/-- The element of an entry. -/
def entryElement (value : Json) : ReportElement :=
  normalizedElement env (recordFields (some value)) (entryType value)

theorem entryElement_type (value : Json) :
    (entryElement env value).type = normalizeReportComponentType env (entryType value) (entryProps value) :=
  rfl

variable {env}

theorem readElements_cons {id : String} {value : Json} {entries : List (String × Json)}
    {es es' : Elements} (h : readElements env ((id, value) :: entries) es = some es') :
    readElements env entries (es.set id (entryElement env value)) = some es' := by
  unfold readElements at h
  cases value with
  | obj fields =>
    dsimp only at h
    cases htype : (lastField fields "type").bind Json.text? with
    | none =>
      rw [htype] at h
      cases h
    | some type =>
      rw [htype] at h
      have helement : entryElement env (.obj fields) = normalizedElement env fields type := by
        have hentry : entryType (.obj fields) = type := by
          show ((lastField fields "type").bind Json.text?).getD "" = type
          rw [htype]
          rfl
        rw [← hentry]
        rfl
      rw [helement]
      exact h
  | null => cases h
  | bool value => cases h
  | num literal => cases h
  | str text => cases h
  | arr items => cases h

/-- The table after the loop: the last entry of each id, `__proto__`
apart, which is the prototype. -/
theorem readElements_spec {entries : List (String × Json)} {es es' : Elements}
    (h : readElements env entries es = some es') (hproto : es.own.lookup "__proto__" = none)
    (hnodup : (es.own.map Prod.fst).Nodup) :
    (∀ id, es'.own.lookup id
        = if id = "__proto__" then none
          else ((lastField entries id).map (entryElement env)).or (es.own.lookup id))
      ∧ es'.proto = ((lastField entries "__proto__").map (entryElement env)).or es.proto
      ∧ (es'.own.map Prod.fst).Nodup := by
  induction entries generalizing es with
  | nil =>
    cases h
    refine ⟨fun id => ?_, rfl, hnodup⟩
    by_cases hid : id = "__proto__"
    · rw [if_pos hid, hid, hproto]
    · rw [if_neg hid]
      rfl
  | cons entry entries ih =>
    obtain ⟨key, value⟩ := entry
    have hset : ∀ x, (es.set key (entryElement env value)).own.lookup x
        = if x = key ∧ key ≠ "__proto__" then some (entryElement env value) else es.own.lookup x :=
      es.lookup_set (entryElement env value) hproto
    have hnext : (es.set key (entryElement env value)).own.lookup "__proto__" = none := by
      rw [hset, if_neg (fun h => h.2 h.1.symm), hproto]
    obtain ⟨hlookup, hprototype, hkeys⟩ := ih (readElements_cons h) hnext (es.nodup_set _ hnodup)
    refine ⟨fun id => ?_, ?_, hkeys⟩
    · rw [hlookup, lastField_cons, hset]
      by_cases hid : id = "__proto__"
      · rw [if_pos hid, if_pos hid]
      · rw [if_neg hid, if_neg hid]
        cases lastField entries id with
        | some last => rfl
        | none =>
          by_cases hkey : key = id
          · rw [hkey, if_pos ⟨rfl, hid⟩, if_pos rfl]
            rfl
          · rw [if_neg (fun h => hkey h.1.symm), if_neg hkey]
            rfl
    · rw [hprototype, lastField_cons, es.proto_set _ hproto]
      cases lastField entries "__proto__" with
      | some last => rfl
      | none =>
        by_cases hkey : key = "__proto__"
        · rw [if_pos hkey, if_pos hkey]
          rfl
        · rw [if_neg hkey, if_neg hkey]
          rfl

/-! ## Types -/

variable (env)

/-- The type, or the chart type of a chart, is spelled like a property that
every object inherits. -/
def SpellsInherited (type : String) (props : Props) : Prop :=
  if squash env type = "chart" ∨ squash env type = "graph" then
    inheritedNames.contains (chartType env props) = true
  else inheritedNames.contains (squash env type) = true

variable {env}

theorem readAlias_eq_inherited_iff {aliases : List (String × String)}
    (h : inheritedNames.all (fun name => (aliases.lookup name).isNone) = true) (key : String) :
    readAlias aliases key = .inherited ↔ inheritedNames.contains key = true := by
  unfold readAlias
  constructor
  · intro hread
    split at hread
    · cases hread
    · split at hread
      · assumption
      · cases hread
  · intro hname
    have hnone := List.all_eq_true.mp h key (List.contains_iff_mem.mp hname)
    rw [Option.isNone_iff_eq_none.mp hnone]
    exact if_pos hname

theorem componentAliases_disjoint :
    inheritedNames.all (fun name => (componentAliases.lookup name).isNone) = true := by
  decide +kernel

theorem chartAliases_disjoint :
    inheritedNames.all (fun name => (chartAliases.lookup name).isNone) = true := by
  decide +kernel

theorem normalize_eq_inherited_iff (type : String) (props : Props) :
    normalizeReportComponentType env type props = .inherited ↔ SpellsInherited env type props := by
  unfold normalizeReportComponentType SpellsInherited
  dsimp only
  by_cases hchart : squash env type = "chart" ∨ squash env type = "graph"
  · rw [if_pos hchart, if_pos hchart, ← readAlias_eq_inherited_iff chartAliases_disjoint]
    cases readAlias chartAliases (chartType env props) with
    | text value => simp
    | inherited => simp
    | undefined => simp
  · rw [if_neg hchart, if_neg hchart, ← readAlias_eq_inherited_iff componentAliases_disjoint]
    cases readAlias componentAliases (squash env type) with
    | text value => simp
    | inherited => simp
    | undefined => simp

end

/-! ## Renderable reports -/

/-- The root is an entry, every entry has a text for its type, and the
renderer, which always ends, takes nothing but entries for elements. The
props of an entry are an object and its children texts by their types. -/
structure Renders (spec : ReportSpec) : Prop where
  root : ∃ element, spec.elements.own.lookup spec.root = some element
  types : ∀ entry ∈ spec.elements.own, ∃ type, entry.2.type = .text type
  safe : (reportRenderer spec).safe = true

theorem ElementType.text_iff (type : ElementType) : (∃ value, type = .text value) ↔ type ≠ .inherited := by
  cases type with
  | text value => exact ⟨fun _ => nofun, fun _ => ⟨value, rfl⟩⟩
  | inherited => exact ⟨nofun, fun h => absurd rfl h⟩

section

variable (env : ReportEnv) (entries : List (String × Json))

/-- The children of an entry of the JSON. -/
def rawChildren (id : String) : Option (List String) :=
  if id = "__proto__" then none
  else (lastField entries id).map fun value =>
    childStrings (lastField (recordFields (some value)) "children")

/-- An id that is no entry and that the table inherits: a property of
every object or, where an entry `__proto__` has replaced the prototype, a
property of that element. -/
def Stray (id : String) : Prop :=
  (id = "__proto__" ∨ lastField entries id = none) ∧
    match lastField entries "__proto__" with
    | none => inheritedNames.contains id = true
    | some value =>
      if id = "type" then
        normalizeReportComponentType env (entryType value) (entryProps value) ≠ .text ""
      else (["props", "children"].contains id || inheritedNames.contains id) = true

/-- No entry is of an inherited type, and no id that the traversal looks
up is a stray one. -/
structure TableClean (root : String) : Prop where
  types : ∀ id value, id ≠ "__proto__" → lastField entries id = some value →
    ¬ SpellsInherited env (entryType value) (entryProps value)
  reached : ∀ x, Reaches (rawChildren entries) 31 root [] x → ¬ Stray env entries x

variable {env entries} {es : Elements}

theorem childrenOf_eq_rawChildren (hlookup : ∀ id, es.own.lookup id
      = if id = "__proto__" then none else (lastField entries id).map (entryElement env)) :
    es.childrenOf = rawChildren entries := by
  funext id
  unfold Elements.childrenOf rawChildren
  rw [hlookup]
  split
  · rfl
  · cases lastField entries id with
    | none => rfl
    | some value => rfl

theorem inherited_else_iff {p : Prop} [Decidable p] :
    (if p then Found.missing else .inherited) = .inherited ↔ ¬ p := by
  by_cases hp : p
  · rw [if_pos hp]
    exact ⟨nofun, fun h => absurd hp h⟩
  · rw [if_neg hp]
    exact ⟨fun _ => hp, fun _ => rfl⟩

theorem inherited_then_iff {p : Prop} [Decidable p] :
    (if p then Found.inherited else .missing) = .inherited ↔ p := by
  by_cases hp : p
  · rw [if_pos hp]
    exact ⟨fun _ => hp, fun _ => rfl⟩
  · rw [if_neg hp]
    exact ⟨nofun, fun h => absurd h hp⟩

theorem get_eq_inherited_iff (hlookup : ∀ id, es.own.lookup id
      = if id = "__proto__" then none else (lastField entries id).map (entryElement env))
    (hproto : es.proto = (lastField entries "__proto__").map (entryElement env)) (id : String) :
    es.get id = .inherited ↔ Stray env entries id := by
  have hnone : es.own.lookup id = none ↔ (id = "__proto__" ∨ lastField entries id = none) := by
    rw [hlookup]
    by_cases hid : id = "__proto__"
    · simp [hid]
    · simp [hid]
  unfold Elements.get Stray
  rw [← hnone, hproto]
  cases es.own.lookup id with
  | some element => simp
  | none =>
    cases lastField entries "__proto__" with
    | none => simp
    | some value =>
      have htext : (entryElement env value).type = _ := entryElement_type env value
      show (if id = "type" then (if (entryElement env value).type = .text "" then Found.missing
        else .inherited) else if _ then Found.inherited else .missing) = _ ↔ _ ∧ if _ then _ else _
      rw [and_iff_right rfl, htext]
      by_cases htype : id = "type"
      · rw [if_pos htype, if_pos htype]
        exact inherited_else_iff
      · rw [if_neg htype, if_neg htype]
        exact inherited_then_iff

/-- What a table that is read leaves: its elements, one of them at the root. -/
theorem parseNormalizedSpec_spec {root : String} {state : Option Json} {spec : ReportSpec}
    (h : parseNormalizedSpec env root entries state = some spec) :
    ∃ es, readElements env entries {} = some es ∧ es.get root ≠ .missing
      ∧ spec.elements = es ∧ spec.root = root := by
  unfold parseNormalizedSpec at h
  cases hread : readElements env entries {} with
  | none =>
    rw [hread] at h
    cases h
  | some es =>
    rw [hread] at h
    dsimp only at h
    refine ⟨es, rfl, ?_⟩
    cases hroot : es.get root with
    | missing =>
      rw [hroot] at h
      cases h
    | inherited =>
      rw [hroot] at h
      cases h
      exact ⟨nofun, rfl, rfl⟩
    | own element =>
      rw [hroot] at h
      cases h
      exact ⟨nofun, rfl, rfl⟩

/-- When a report of the table dialect renders. -/
theorem table_renders_iff {root : String} {state : Option Json} {spec : ReportSpec}
    (h : parseNormalizedSpec env root entries state = some spec) :
    Renders spec ↔ TableClean env entries root := by
  obtain ⟨es, hread, hfound, helements, hroot⟩ := parseNormalizedSpec_spec h
  obtain ⟨hlookup, hproto, hnodup⟩ := readElements_spec hread rfl List.nodup_nil
  simp only [List.lookup_nil, Option.or_none] at hlookup hproto
  have hchildren := childrenOf_eq_rawChildren hlookup
  have hget := get_eq_inherited_iff hlookup hproto
  have hentry := mem_iff_lookup hnodup
  constructor
  · intro hrenders
    constructor
    · intro id value hid hvalue
      have hown : es.own.lookup id = some (entryElement env value) := by
        rw [hlookup, if_neg hid, hvalue]
        rfl
      have hmem := (hentry (id, entryElement env value)).mpr hown
      rw [← normalize_eq_inherited_iff, ← entryElement_type]
      exact (ElementType.text_iff _).mp (hrenders.types _ (helements ▸ hmem))
    · intro x hx
      rw [← hget]
      have hsafe := (safe_iff _ _ _ _).mp hrenders.safe x
      rw [helements, hroot, hchildren] at hsafe
      exact hsafe hx
  · intro hclean
    constructor
    · rw [helements, hroot]
      have hnot := hclean.reached root (Reaches.head _ _ _ _)
      rw [← hget] at hnot
      cases hroot' : es.get root with
      | missing => exact absurd hroot' hfound
      | inherited => exact absurd hroot' hnot
      | own element => exact ⟨element, (es.get_eq_own_iff).mp hroot'⟩
    · rw [helements]
      intro entry hmem
      have hown := (hentry entry).mp hmem
      rw [hlookup] at hown
      split at hown
      · cases hown
      · rename_i hid
        obtain ⟨value, hvalue, helement⟩ := Option.map_eq_some_iff.mp hown
        rw [ElementType.text_iff, ← helement, entryElement_type, ne_eq, normalize_eq_inherited_iff]
        exact hclean.types entry.1 value hid hvalue
    · unfold reportRenderer
      rw [helements, hroot, safe_iff, hchildren]
      intro x hx
      rw [ne_eq, hget]
      exact hclean.reached x hx

end

end LendingClaw.Ui
