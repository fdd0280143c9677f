/-
# Members by their nearest declaration

What a class says of a name is what its own declaration says of it first, and else what
its parent says. So a member is found in the nearest class on the way up to the root that
declares it, and the tables are as deep as that way is long. The declaration is the one
that the class was made from, although later declarations of the same name may agree with
it in everything that a class keeps. Collecting the members once more finds all of this
as it is.
-/

import ClassLang.Proofs.Hierarchy.Rooted
import ClassLang.Proofs.Hierarchy.Tables

namespace ClassLang

/-! ## Tables that keep the first entry -/

namespace Scopes

variable {α : Type}

/-- Enter a name into the innermost scope, unless it is there already. -/
def addNew (scopes : Scopes α) (name : String) (value : α) : Scopes α :=
  if (scopes.peek name).isSome then scopes else scopes.add name value

/-- Enter names one after the other. -/
def addAll (scopes : Scopes α) (entries : Scope α) : Scopes α :=
  entries.foldl (fun scopes entry => scopes.addNew entry.1 entry.2) scopes

theorem peek_addNew (scopes : Scopes α) (name other : String) (value : α) :
    (scopes.addNew name value).peek other =
      (scopes.peek other).or (if other = name then some value else none) := by
  unfold addNew
  split
  next hthere =>
    obtain ⟨old, hold⟩ := Option.isSome_iff_exists.mp hthere
    by_cases hother : other = name
    · rw [hother, hold, Option.some_or]
    · rw [if_neg hother, Option.or_none]
  next hnew =>
    rw [Option.not_isSome_iff_eq_none] at hnew
    rw [peek_add]
    by_cases hother : other = name
    · rw [if_pos hother, if_pos hother, hother, hnew, Option.none_or]
    · rw [if_neg hother, if_neg hother, Option.or_none]

/-- Of several entries for a name the first one is kept. -/
theorem peek_addAll (scopes : Scopes α) (entries : Scope α) (name : String) :
    (scopes.addAll entries).peek name = (scopes.peek name).or (entries.lookup name) := by
  induction entries generalizing scopes with
  | nil => exact Option.or_none.symm
  | cons entry entries ih =>
      obtain ⟨first, value⟩ := entry
      have hlookup : List.lookup name ((first, value) :: entries) =
          (if name = first then some value else none).or (entries.lookup name) := by
        rw [List.lookup_cons]
        by_cases hname : name = first
        · rw [if_pos hname, beq_iff_eq.mpr hname, Option.some_or]
        · rw [if_neg hname, beq_eq_false_iff_ne.mpr hname, Option.none_or]
      have hrest := ih (scopes.addNew first value)
      rwa [peek_addNew, Option.or_assoc, ← hlookup] at hrest

theorem outer_addAll (scopes : Scopes α) (entries : Scope α) :
    (scopes.addAll entries).outer = scopes.outer := by
  induction entries generalizing scopes with
  | nil => rfl
  | cons entry entries ih =>
      have hfirst : (scopes.addNew entry.1 entry.2).outer = scopes.outer := by
        unfold addNew
        split <;> rfl
      exact (ih _).trans hfirst

end Scopes

/-- The fields that a class declares, the first of each name before the others. -/
def ClassDecl.fieldScope (decl : ClassDecl) : Scope Ty :=
  decl.fields.map fun field => (field.name, field.type)

/-- The methods that a class declares, the first of each name before the others. -/
def ClassDecl.methodScope (decl : ClassDecl) : Scope Signature :=
  decl.methods.map fun method => (method.name, method.signature decl.name)

namespace Hierarchy

open Relation CheckM

variable {α : Type} {hierarchy linked : Hierarchy} {program : Program}

/-! ## The tables of one class -/

theorem returns_declareField (decl : ClassDecl) (fields : Scopes Ty) (field : FieldDecl) :
    Returns (declareField hierarchy decl fields field)
      (fields.addNew field.name field.type) := by
  apply Returns.bind (.require _ _)
  unfold Scopes.addNew
  split
  · exact .bind (.report _) (.pure _)
  · exact .pure _

theorem returns_checkOverride (decl : ClassDecl) (method : MethodDecl)
    (inherited : Option Signature) : Returns (checkOverride decl method inherited) () := by
  cases inherited with
  | none => exact .pure ()
  | some sig => exact .require _ _

/-- A method is entered also if it changes an inherited signature. -/
theorem returns_declareMethod (decl : ClassDecl) (methods : Scopes Signature)
    (method : MethodDecl) :
    Returns (declareMethod hierarchy decl methods method)
      (methods.addNew method.name (method.signature decl.name)) := by
  have hhead : Returns (checkHead hierarchy decl method) () :=
    .bind (.require _ _) (.forM (fun _ => .require _ _) _)
  apply Returns.bind hhead
  unfold Scopes.addNew
  split
  · exact .bind (.report _) (.pure _)
  · exact .bind (returns_checkOverride decl method _) (.pure _)

/-- The tables that a declaration makes for a class. -/
def tablesOf (hierarchy : Hierarchy) (info : ClassInfo) (decl : ClassDecl) : Tables :=
  ((hierarchy.inherited info ClassInfo.fields).addAll decl.fieldScope,
    (hierarchy.inherited info ClassInfo.methods).addAll decl.methodScope)

theorem returns_declareFields (decl : ClassDecl) (table : Scopes Ty) :
    Returns (decl.fields.foldlM (declareField hierarchy decl) table)
      (table.addAll decl.fieldScope) := by
  rw [Scopes.addAll, ClassDecl.fieldScope, List.foldl_map]
  exact .foldlM (returns_declareField decl) _ _

theorem returns_declareMethods (decl : ClassDecl) (table : Scopes Signature) :
    Returns (decl.methods.foldlM (declareMethod hierarchy decl) table)
      (table.addAll decl.methodScope) := by
  rw [Scopes.addAll, ClassDecl.methodScope, List.foldl_map]
  exact .foldlM (returns_declareMethod decl) _ _

theorem returns_makeTables {info : ClassInfo} {decl : ClassDecl}
    (hdecl : declaration? program info = some decl) :
    Returns (makeTables program hierarchy info) (tablesOf hierarchy info decl) := by
  simp only [makeTables, hdecl]
  exact .bind (returns_declareFields decl _) (.bind (returns_declareMethods decl _) (.pure _))

/-- A class whose tables are made already stays as it is, also if the pass is stopped. -/
theorem run_collectClass_eq_self (hdistinct : hierarchy.Distinct) {name : String}
    {info : ClassInfo} {decl : ClassDecl} (hget : hierarchy.get? name = some info)
    (hdecl : declaration? program info = some decl)
    (hmade : withTables info (tablesOf hierarchy info decl) = info) (pass : Pass) :
    ((collectClass program hierarchy name).run pass).1 = hierarchy := by
  have hmodify : (hierarchy.modify name fun other =>
      withTables other (tablesOf hierarchy info decl)) = hierarchy := by
    have hclass (other : ClassInfo) (hother : other ∈ hierarchy.classes) :
        (if other.name = name then withTables other (tablesOf hierarchy info decl) else other) =
          other := by
      split
      next hname =>
        have hfound := get?_name hdistinct hother
        rw [hname, hget] at hfound
        cases hfound
        exact hmade
      next => rfl
    rw [modify, List.map_congr_left hclass, List.map_id']
  obtain ⟨records, hmakes⟩ := @returns_makeTables hierarchy _ info decl hdecl
  -- the returned tables do not depend on the pass, only whether they are written does
  simp only [collectClass, hget]
  rw [StateT.run_bind, hmakes pass]
  show (if _ = true then hierarchy else hierarchy.modify name _) = hierarchy
  split
  · rfl
  · exact hmodify

/-! ## The declaration of a class -/

/-- An element that is the first in a wider sense is the first in a narrower one too. -/
theorem find?_of_imp {wide narrow : α → Bool} {pieces : List α} {piece : α}
    (hfirst : pieces.find? wide = some piece) (hnarrow : narrow piece = true)
    (himp : ∀ other, narrow other = true → wide other = true) :
    pieces.find? narrow = some piece := by
  obtain ⟨_, before, after, rfl, hbefore⟩ := List.find?_eq_some_iff_append.mp hfirst
  refine List.find?_eq_some_iff_append.mpr ⟨hnarrow, before, after, rfl, ?_⟩
  intro other hother
  have hwide := hbefore other hother
  cases hother : narrow other with
  | false => rfl
  | true => simp [himp other hother] at hwide

theorem describes_iff {info : ClassInfo} {decl : ClassDecl} :
    info.describes decl = true ↔
      decl.name = info.name ∧ decl.file = info.file ∧ decl.line = info.line := by
  simp [ClassInfo.describes, and_assoc]

/-- The declaration that is found for a class is the one that the class was made from: the
first of its name, whatever later ones there are with the same file and line. -/
theorem declaration?_of_declared? (huser : ∀ decl ∈ program.classes, decl.isBuiltin = false)
    {info : ClassInfo} {decl : ClassDecl}
    (hdeclared : declared? (Builtin.classes ++ program.classes) info.name = some decl)
    (hdescribed :
      { info with parent := none, fields := {}, methods := {} } = ClassInfo.ofDecl decl) :
    declaration? program.withBuiltins info = some decl := by
  have hname : decl.name = info.name := congrArg ClassInfo.name hdescribed.symm
  have hfile : decl.file = info.file := congrArg ClassInfo.file hdescribed.symm
  have hline : decl.line = info.line := congrArg ClassInfo.line hdescribed.symm
  have hinfo : info.describes decl = true := describes_iff.mpr ⟨hname, hfile, hline⟩
  have himp (other : ClassDecl) (hother : info.describes other = true) :
      (other.name == info.name) = true :=
    beq_iff_eq.mpr (describes_iff.mp hother).1
  have hfirst : (Builtin.classes ++ program.classes).find? (·.name == info.name) = some decl := by
    unfold declared? at hdeclared
    split at hdeclared
    · cases hdeclared
    · exact hdeclared
  rw [declaration?, classes_withBuiltins huser, List.find?_append]
  rw [List.find?_append, Option.or_eq_some_iff] at hfirst
  rcases hfirst with hbuiltin | ⟨_, hown⟩
  · -- a class of the program is in another file, so only the built-in one is described
    have hall : ∀ decl ∈ Builtin.classes, decl.file = Builtin.file := by decide
    have hbuiltinFile := hall decl (List.mem_of_find?_eq_some hbuiltin)
    have hnone : program.classes.find? info.describes = none := by
      rw [List.find?_eq_none]
      intro other hother hdescribes
      have hnot := huser other hother
      rw [ClassDecl.isBuiltin, (describes_iff.mp hdescribes).2.1, ← hfile, hbuiltinFile] at hnot
      exact absurd hnot (by decide)
    rw [hnone, Option.none_or]
    exact find?_of_imp hbuiltin hinfo himp
  · rw [find?_of_imp hown hinfo himp, Option.some_or]

/-! ## Lookup along the way up -/

/-- The tables of all classes hold what their declarations add to the tables of their
parents. -/
def Tabled (decls : List ClassDecl) (own : ClassDecl → Scope α) (table : ClassInfo → Scopes α)
    (hierarchy : Hierarchy) : Prop :=
  ∀ name info, hierarchy.get? name = some info → ∃ decl, declared? decls name = some decl ∧
    table info = (hierarchy.inherited info table).addAll (own decl)

/-- What a class knows of its members of one sort, fields or methods. The members that a
declaration adds are `own`, and `find` looks one up in the `table` of a class. -/
structure Nearest (decls : List ClassDecl) (hierarchy : Hierarchy) (own : ClassDecl → Scope α)
    (table : ClassInfo → Scopes α) (find : String → String → Option α) (info : ClassInfo)
    (decl : ClassDecl) : Prop where
  /-- The innermost scope holds the first declarations in the class, and nothing else. -/
  peek : ∀ member, (table info).peek member = (own decl).lookup member
  /-- A member is what the class declares first, or else what it is in the parent. -/
  lookup : ∀ member, find info.name member =
    ((own decl).lookup member).or (info.parent.bind fun parent => find parent member)
  /-- A member is unknown if no class on the way up declares it. -/
  unknown : ∀ member, find info.name member = none ↔
    ∀ name ∈ info.name :: hierarchy.ancestors info.name, ∀ decl,
      declared? decls name = some decl → (own decl).lookup member = none
  /-- There is a scope for the class and one for each of its ancestors. -/
  depth : (table info).depth = 1 + (hierarchy.ancestors info.name).length

section Tabled

variable {decls : List ClassDecl} {own : ClassDecl → Scope α} {table : ClassInfo → Scopes α}
  {find : String → String → Option α}

theorem peek_inherited (info : ClassInfo) (member : String) :
    (hierarchy.inherited info table).peek member = none := by
  unfold inherited
  split <;> rfl

/-- What is looked up further out is looked up in the parent. -/
theorem outer_inherited (info : ClassInfo) (member : String) :
    ((hierarchy.inherited info table).outer.findSome? fun scope => scope.lookup member) =
      info.parent.bind fun parent => (hierarchy.get? parent).bind fun above =>
        (table above).lookup member := by
  unfold inherited
  cases info.parent with
  | none => rfl
  | some parent =>
      show ((hierarchy.get? parent).elim {} table).lookup member =
        (hierarchy.get? parent).bind fun above => (table above).lookup member
      cases hierarchy.get? parent <;> rfl

variable (htree : hierarchy.IsTree) (htabled : Tabled decls own table hierarchy)
  (hfind : ∀ name member, find name member =
    (hierarchy.get? name).bind fun info => (table info).lookup member)
  {name : String} {info : ClassInfo} {decl : ClassDecl}

include htabled

theorem Tabled.table_eq (hget : hierarchy.get? name = some info)
    (hdecl : declared? decls name = some decl) :
    table info = (hierarchy.inherited info table).addAll (own decl) := by
  obtain ⟨found, hfound, htable⟩ := htabled name info hget
  rw [hdecl] at hfound
  cases hfound
  exact htable

theorem Tabled.peek_eq (hget : hierarchy.get? name = some info)
    (hdecl : declared? decls name = some decl) (member : String) :
    (table info).peek member = (own decl).lookup member := by
  rw [htabled.table_eq hget hdecl, Scopes.peek_addAll, peek_inherited, Option.none_or]

include hfind in
theorem Tabled.lookup_eq (hget : hierarchy.get? name = some info)
    (hdecl : declared? decls name = some decl) (member : String) :
    find name member =
      ((own decl).lookup member).or (info.parent.bind fun parent => find parent member) := by
  have houter : (table info).outer = (hierarchy.inherited info table).outer := by
    rw [htabled.table_eq hget hdecl, Scopes.outer_addAll]
  rw [hfind, hget, Option.bind_some, Scopes.lookup_eq, htabled.peek_eq hget hdecl, houter,
    outer_inherited]
  simp only [hfind]

include htree in
theorem Tabled.depth_eq (hname : name ∈ hierarchy.names) :
    ∀ info, hierarchy.get? name = some info →
      (table info).depth = 1 + (hierarchy.ancestors name).length := by
  refine htree.induction (fun name hname hparents info hget => ?_) hname
  obtain ⟨decl, _, htable⟩ := htabled name info hget
  have hdepth : (table info).depth = (hierarchy.inherited info table).depth := by
    rw [htable, Scopes.depth, Scopes.outer_addAll, Scopes.depth]
  cases hinfo : info.parent with
  | none =>
      rw [ancestors_eq_nil hget hinfo, hdepth, inherited, hinfo]
      rfl
  | some parent =>
      have hparent := isParent_of_get? hget hinfo
      obtain ⟨above, habove⟩ := exists_get?_of_mem_names (htree.parent_mem name parent hparent)
      rw [hdepth, inherited_eq_enter hinfo habove, Scopes.depth_enter,
        hparents parent hparent above habove, htree.ancestors_eq_cons hparent, List.length_cons,
        Nat.add_assoc]

include htree hfind in
theorem Tabled.find_eq_none_iff (hname : name ∈ hierarchy.names) (member : String) :
    find name member = none ↔ ∀ above ∈ name :: hierarchy.ancestors name, ∀ decl,
      declared? decls above = some decl → (own decl).lookup member = none := by
  refine htree.induction (fun name hname hparents => ?_) hname
  obtain ⟨info, hget⟩ := exists_get?_of_mem_names hname
  obtain ⟨decl, hdecl, _⟩ := htabled name info hget
  have hown : (∀ other, declared? decls name = some other → (own other).lookup member = none) ↔
      (own decl).lookup member = none := by
    rw [hdecl]
    exact ⟨fun hall => hall decl rfl, fun hnone other hother => Option.some.inj hother ▸ hnone⟩
  rw [htabled.lookup_eq hfind hget hdecl, Option.or_eq_none_iff, List.forall_mem_cons, hown]
  apply and_congr_right
  intro _
  cases hinfo : info.parent with
  | none =>
      rw [ancestors_eq_nil hget hinfo]
      exact ⟨fun _ above habove => absurd habove List.not_mem_nil, fun _ => rfl⟩
  | some parent =>
      have hparent := isParent_of_get? hget hinfo
      rw [Option.bind_some, hparents parent hparent, htree.ancestors_eq_cons hparent]

include htree hfind in
theorem Tabled.nearest (hget : hierarchy.get? name = some info)
    (hdecl : declared? decls name = some decl) :
    Nearest decls hierarchy own table find info decl := by
  obtain rfl := name_of_get? hget
  exact {
    peek := htabled.peek_eq hget hdecl
    lookup := htabled.lookup_eq hfind hget hdecl
    unknown := htabled.find_eq_none_iff htree hfind (mem_names_of_get? hget)
    depth := htabled.depth_eq htree (mem_names_of_get? hget) info hget }

end Tabled

/-! ## Collected members -/

/-- A class with the tables that follow from its declaration and from those of its parent. -/
structure Made (decls : List ClassDecl) (hierarchy : Hierarchy) (info : ClassInfo)
    (decl : ClassDecl) : Prop where
  declared : declared? decls info.name = some decl
  described : { info with parent := none, fields := {}, methods := {} } = ClassInfo.ofDecl decl
  tables : withTables info (tablesOf hierarchy info decl) = info

/-- Once its tables are settled, a class is made from the first declaration of its name. -/
theorem exists_made (huser : ∀ decl ∈ program.classes, decl.isBuiltin = false)
    {base collected : Hierarchy} {accepting linking : List Diagnostic}
    {records : String → List Diagnostic} {done : List String}
    (hbuilds : Builds program base linked accepting linking)
    (hsettled : Settled program.withBuiltins linked collected records done)
    (hdone : ∀ name ∈ linked.names, name ∈ done) {name : String} {info : ClassInfo}
    (hget : collected.get? name = some info) :
    ∃ decl, Made (Builtin.classes ++ program.classes) collected info decl := by
  have hname : name ∈ linked.names := hsettled.names ▸ mem_names_of_get? hget
  obtain ⟨start, hstart⟩ := exists_get?_of_mem_names hname
  obtain ⟨tables, hfinal, hmakes⟩ := hsettled.made name (hdone name hname) start hstart
  have hmap := hbuilds.map_get? name
  rw [hstart, Option.map_some, declarations_withBuiltins huser] at hmap
  obtain ⟨decl, hdecl, hofDecl⟩ := Option.map_eq_some_iff.mp hmap.symm
  rw [← name_of_get? hstart] at hdecl
  have hdescribed : { start with parent := none, fields := {}, methods := {} } =
      ClassInfo.ofDecl decl :=
    congrArg (fun info : ClassInfo => { info with fields := {}, methods := {} }) hofDecl.symm
  obtain ⟨_, hreports⟩ := @returns_makeTables collected _ start decl
    (declaration?_of_declared? huser hdecl hdescribed)
  obtain ⟨rfl, _⟩ := hmakes.unique hreports.yields
  rw [hget] at hfinal
  cases hfinal
  exact ⟨decl, hdecl, hdescribed, rfl⟩

/-- The members of a program are found in the nearest class that declares them. -/
structure CollectedAsDeclared (program : Program) (linked collected : Hierarchy) : Prop where
  names : collected.names = linked.names
  /-- A class is made from the first declaration of its name, the built-in ones before all
  others, and what it knows of its members comes from there and from its parent. -/
  classes : ∀ name info, collected.get? name = some info → ∃ decl,
    declared? (Builtin.classes ++ program.classes) name = some decl ∧
    { info with parent := none, fields := {}, methods := {} } = ClassInfo.ofDecl decl ∧
    Nearest (Builtin.classes ++ program.classes) collected ClassDecl.fieldScope ClassInfo.fields
      collected.field? info decl ∧
    Nearest (Builtin.classes ++ program.classes) collected ClassDecl.methodScope
      ClassInfo.methods collected.method? info decl
  /-- Collecting again leaves all tables as they are, wherever it may stop. -/
  again : ∀ log, ((collectMembers program.withBuiltins collected).runOn log).1 = collected

theorem run_foldlM_eq_self {β : Type} {step : β → α → CheckM β} {state : β}
    (hstep : ∀ piece pass, ((step state piece).run pass).1 = state) (pieces : List α)
    (pass : Pass) : ((pieces.foldlM step state).run pass).1 = state := by
  induction pieces generalizing pass with
  | nil => rfl
  | cons piece pieces ih =>
      rw [List.foldlM_cons, StateT.run_bind]
      show ((pieces.foldlM step ((step state piece).run pass).1).run _).1 = state
      rw [hstep, ih]

theorem Made.tabled {decls : List ClassDecl} {own : ClassDecl → Scope α}
    {table : ClassInfo → Scopes α}
    (hmade : ∀ name info, hierarchy.get? name = some info → ∃ decl, Made decls hierarchy info decl)
    (htable : ∀ info decl, withTables info (tablesOf hierarchy info decl) = info →
      table info = (hierarchy.inherited info table).addAll (own decl)) :
    Tabled decls own table hierarchy := by
  intro name info hget
  obtain ⟨decl, hclass⟩ := hmade name info hget
  rw [← name_of_get? hget]
  exact ⟨decl, hclass.declared, htable info decl hclass.tables⟩

theorem Made.collectClass_eq_self (huser : ∀ decl ∈ program.classes, decl.isBuiltin = false)
    (hdistinct : hierarchy.Distinct)
    (hmade : ∀ name info, hierarchy.get? name = some info →
      ∃ decl, Made (Builtin.classes ++ program.classes) hierarchy info decl)
    (name : String) (pass : Pass) :
    ((collectClass program.withBuiltins hierarchy name).run pass).1 = hierarchy := by
  cases hget : hierarchy.get? name with
  | none =>
      simp only [collectClass, hget]
      rfl
  | some info =>
      obtain ⟨decl, hmade⟩ := hmade name info hget
      have hdecl := declaration?_of_declared? huser hmade.declared hmade.described
      exact run_collectClass_eq_self hdistinct hget hdecl hmade.tables pass

theorem Made.collectedAsDeclared (huser : ∀ decl ∈ program.classes, decl.isBuiltin = false)
    (hnames : hierarchy.names = linked.names) (htree : hierarchy.IsTree)
    (hmade : ∀ name info, hierarchy.get? name = some info →
      ∃ decl, Made (Builtin.classes ++ program.classes) hierarchy info decl) :
    CollectedAsDeclared program linked hierarchy := by
  have hfields : Tabled (Builtin.classes ++ program.classes) ClassDecl.fieldScope
      ClassInfo.fields hierarchy :=
    Made.tabled hmade fun _ _ htables => congrArg ClassInfo.fields htables.symm
  have hmethods : Tabled (Builtin.classes ++ program.classes) ClassDecl.methodScope
      ClassInfo.methods hierarchy :=
    Made.tabled hmade fun _ _ htables => congrArg ClassInfo.methods htables.symm
  constructor
  · exact hnames
  · intro name info hget
    obtain ⟨decl, hclass⟩ := hmade name info hget
    have hdecl := hclass.declared
    rw [name_of_get? hget] at hdecl
    exact ⟨decl, hdecl, hclass.described, hfields.nearest htree (fun _ _ => rfl) hget hdecl,
      hmethods.nearest htree (fun _ _ => rfl) hget hdecl⟩
  · intro log
    exact run_foldlM_eq_self (Made.collectClass_eq_self huser htree.distinct hmade) _ _

/-- Once the members are collected, whatever was reported on the way, each class finds its
members by the nearest declaration. -/
theorem collectMembers_nearest {program : Program}
    (huser : ∀ decl ∈ program.classes, decl.isBuiltin = false) {log later : Log}
    {linked collected : Hierarchy} {built pass : Pass}
    (hbuild : (build program.withBuiltins).runOn log = (linked, built))
    (hcollect : (collectMembers program.withBuiltins linked).runOn later = (collected, pass))
    (hpass : pass.stopped = false) : CollectedAsDeclared program linked collected := by
  obtain ⟨base, found, accepting, linking, hbuilds⟩ := exists_builds huser
  obtain rfl : found = linked := by
    rw [runOn, hbuilds.builds] at hbuild
    exact congrArg Prod.fst hbuild
  obtain ⟨final, records, hyields, hsettled⟩ :=
    exists_collectMembers hbuilds.tree program.withBuiltins
  obtain rfl := hyields.eq_of_runOn hcollect hpass
  have hdone (name : String) (hname : name ∈ found.names) : name ∈ found.rootFirst.reverse :=
    List.mem_reverse.mpr (hbuilds.tree.rootFirst_perm_names.mem_iff.mpr hname)
  apply Made.collectedAsDeclared huser hsettled.names
  · apply hbuilds.tree.withTables hsettled.names
    intro name info hget
    obtain ⟨tables, hfinal, _⟩ :=
      hsettled.made name (hdone name (mem_names_of_get? hget)) info hget
    exact ⟨tables, hfinal⟩
  · intro name info hget
    exact exists_made huser hbuilds hsettled hdone hget

/-- Two classes of one name, file and line; the first declares members twice and changes a
method of a class that comes after it, and a class below it declares nothing. -/
def doubledProgram : Program where
  classes :=
    [{ name := "Low", parent := some "Middle", file := "a", line := 1 },
      { name := "Middle", parent := some "Top", file := "a", line := 2, members :=
        [.field ⟨"size", .int, none, 3⟩, .field ⟨"size", .boolean, none, 4⟩,
          .method ⟨"get", .boolean, [], [], 5⟩, .method ⟨"get", .int, [], [], 6⟩] },
      { name := "Middle", parent := some "Top", file := "a", line := 2, members :=
        [.field ⟨"other", .int, none, 3⟩, .method ⟨"late", .void, [], [], 4⟩] },
      { name := "Top", file := "b", line := 1, members :=
        [.field ⟨"above", .named "Low", none, 2⟩, .method ⟨"get", .int, [⟨"at", .int⟩], [], 3⟩] }]

/-- The linked classes of the doubled program, and the pass that linked them. -/
def doubledLinked : Hierarchy × Pass :=
  (build doubledProgram.withBuiltins).runOn { limit := 9 }

/-- The classes of the doubled program with their members. -/
def doubledCollected : Hierarchy × Pass :=
  (collectMembers doubledProgram.withBuiltins doubledLinked.1).runOn doubledLinked.2.log

theorem doubledProgram_nearest :
    (∀ decl ∈ doubledProgram.classes, decl.isBuiltin = false) ∧
      doubledCollected.2.stopped = false ∧ doubledCollected.2.log.count = 4 ∧
      doubledCollected.1.field? "Low" "other" = none ∧
      CollectedAsDeclared doubledProgram doubledLinked.1 doubledCollected.1 := by
  have huser : ∀ decl ∈ doubledProgram.classes, decl.isBuiltin = false := by decide
  have hpass : doubledCollected.2.stopped = false := by decide +kernel
  have hcount : doubledCollected.2.log.count = 4 := by decide +kernel
  have hother : doubledCollected.1.field? "Low" "other" = none := by decide +kernel
  have hlinked : doubledLinked = (doubledLinked.1, doubledLinked.2) := (Prod.eta _).symm
  have hcollected : doubledCollected = (doubledCollected.1, doubledCollected.2) :=
    (Prod.eta _).symm
  exact ⟨huser, hpass, hcount, hother, collectMembers_nearest huser hlinked hcollected hpass⟩

end Hierarchy

end ClassLang
