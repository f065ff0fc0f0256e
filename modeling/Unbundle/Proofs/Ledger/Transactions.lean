import Mathlib.Data.List.Nodup
import Unbundle.Ledger.Store

namespace Unbundle.Ledger

namespace Tables

variable {tables : Tables} {name : Bytes}

private theorem find?_drop (tables : Tables) (name other : Bytes) :
    (tables.drop name).find? other = if other = name then none else tables.find? other := by
  rw [drop, find?, find?, List.find?_filter]
  by_cases same : other = name
  · rw [if_pos same, List.find?_eq_none]
    intro contents _
    simp [same]
  · rw [if_neg same]
    congr 1
    funext contents
    by_cases named : contents.table.name = other
    · simp [named, same]
    · simp [named]

private theorem find?_append (tables others : Tables) (name : Bytes) :
    (tables ++ others).find? name = (tables.find? name).or (others.find? name) :=
  List.find?_append

theorem find?_drops {names : List Bytes} (member : name ∈ names) (tables : Tables) :
    (names.foldl drop tables).find? name = none := by
  have still (names : List Bytes) {tables : Tables} (absent : tables.find? name = none) :
      (names.foldl drop tables).find? name = none := by
    induction names generalizing tables with
    | nil => exact absent
    | cons other names ih =>
      apply ih
      rw [find?_drop, absent, ite_self]
  induction names generalizing tables with
  | nil => cases member
  | cons other names ih =>
    rcases List.mem_cons.mp member with rfl | member
    · exact still names (by rw [find?_drop, if_pos rfl])
    · exact ih member _

theorem find?_add (tables : Tables) (name other : Bytes) (row : Row) :
    (tables.add name row).find? other = (tables.find? other).map fun contents =>
      if other = name then { contents with rows := contents.rows ++ [row] } else contents := by
  rw [add, find?, List.find?_map, find?]
  have seen (contents : Contents) :
      (if contents.table.name = name then { contents with rows := contents.rows ++ [row] }
        else contents).table.name = contents.table.name := by
    split <;> rfl
  simp only [Function.comp_def, seen]
  cases found : List.find? (fun contents : Contents => decide (contents.table.name = other))
    tables with
  | none => rfl
  | some contents =>
    have named : contents.table.name = other := by simpa using List.find?_some found
    rw [Option.map_some, Option.map_some, named]

end Tables

namespace Table

private theorem names_ne : packages.name ≠ modules.name ∧ packages.name ≠ dependencies.name ∧
    packages.name ≠ outputs.name ∧ modules.name ≠ dependencies.name ∧
    modules.name ≠ outputs.name ∧ dependencies.name ≠ outputs.name := by
  decide +kernel

private theorem nodup_names : (all.map name).Nodup := by
  obtain ⟨first, second, third, fourth, fifth, sixth⟩ := names_ne
  simp [all, first, second, third, fourth, fifth, sixth]

end Table

/-- The rows of the four tables of a run, those of the packages without their numbers. -/
@[ext] structure Rows where
  packages : List Row := []
  modules : List Row := []
  dependencies : List Row := []
  outputs : List Row := []

namespace Rows

instance : Append Rows where
  append rows more := {
    packages := rows.packages ++ more.packages
    modules := rows.modules ++ more.modules
    dependencies := rows.dependencies ++ more.dependencies
    outputs := rows.outputs ++ more.outputs }

variable (rows more most : Rows)

@[simp] theorem modules_append : (rows ++ more).modules = rows.modules ++ more.modules := rfl

@[simp] theorem outputs_append : (rows ++ more).outputs = rows.outputs ++ more.outputs := rfl

theorem append_assoc : rows ++ more ++ most = rows ++ (more ++ most) :=
  Rows.ext (List.append_assoc ..) (List.append_assoc ..) (List.append_assoc ..)
    (List.append_assoc ..)

theorem append_nil : rows ++ {} = rows :=
  Rows.ext (List.append_nil _) (List.append_nil _) (List.append_nil _) (List.append_nil _)

theorem nil_append : {} ++ rows = rows := rfl

/-- The rows of the packages, numbered from one. -/
def numbered (rows : Rows) : List Row :=
  rows.packages.mapIdx fun index row => .integer (Int64.ofNat (index + 1)) :: row

/-- Whether no two rows of a table have the same key. -/
structure Keyed (rows : Rows) : Prop where
  modules : (rows.modules.map Table.modules.keyOf).Nodup
  outputs : (rows.outputs.map Table.outputs.keyOf).Nodup

variable {rows more}

theorem Keyed.of_append (keyed : (rows ++ more).Keyed) : rows.Keyed := by
  obtain ⟨modules, outputs⟩ := keyed
  rw [modules_append, List.map_append] at modules
  rw [outputs_append, List.map_append] at outputs
  exact ⟨(List.nodup_append.mp modules).1, (List.nodup_append.mp outputs).1⟩

end Rows

/-- Whether the four tables hold the given rows and no others. -/
structure Tables.Hold (tables : Tables) (rows : Rows) : Prop where
  packages : tables.find? Table.packages.name = some ⟨.packages, rows.numbered⟩
  modules : tables.find? Table.modules.name = some ⟨.modules, rows.modules⟩
  dependencies : tables.find? Table.dependencies.name = some ⟨.dependencies, rows.dependencies⟩
  outputs : tables.find? Table.outputs.name = some ⟨.outputs, rows.outputs⟩

/-- Whether a transaction is under way that started from empty tables and has come to some rows. -/
structure State.Fills (state : State) (rows : Rows) : Prop where
  kept : state.kept.Hold {}
  changed : ∃ tables, state.changed? = some tables ∧ tables.Hold rows

namespace State

variable {state : State} {rows : Rows}

private theorem execute_drops (kept : Tables) (tables : List Table) (script : List Statement) :
    execute { kept } (tables.map (fun table => .drop table.name) ++ script) =
      execute { kept := (tables.map Table.name).foldl .drop kept } script := by
  induction tables generalizing kept with
  | nil => rfl
  | cons table tables ih => exact ih (kept.drop table.name)

private theorem execute_creates {kept : Tables} {tables : List Table}
    (distinct : (tables.map Table.name).Nodup)
    (absent : ∀ table ∈ tables, kept.find? table.name = none) :
    execute { kept } (tables.map .create) = (none, { kept := kept ++ tables.map (⟨·, []⟩) }) := by
  induction tables generalizing kept with
  | nil => rw [List.map_nil, List.map_nil, List.append_nil]; rfl
  | cons table tables ih =>
    obtain ⟨first, others⟩ := List.forall_mem_cons.mp absent
    obtain ⟨apart, distinct⟩ := List.nodup_cons.mp distinct
    have free : ¬(kept.find? table.name).isSome = true := by
      rw [first]
      exact Bool.false_ne_true
    have created : run { kept } (.create table) = .ok { kept := kept ++ [⟨table, []⟩] } := by
      rw [run]
      exact if_neg free
    rw [List.map_cons, List.map_cons, execute, created]
    dsimp only
    rw [ih distinct, List.append_assoc]
    · rfl
    · intro other member
      have different : table.name ≠ other.name := fun same =>
        apart (same ▸ List.mem_map_of_mem member)
      rw [Tables.find?_append, others other member, Option.none_or, Tables.find?,
        List.find?_singleton, decide_eq_false different]
      rfl

/-- Once they are set up, the tables are there and empty. -/
theorem setUp (older : Tables) :
    ∃ kept : Tables, (take { kept := older } (.execute schema)).2 = { kept } ∧ kept.Hold {} := by
  let left : Tables := (Table.all.map Table.name).foldl .drop older
  let fresh : Tables := Table.all.map (⟨·, []⟩)
  have gone (table : Table) (member : table ∈ Table.all) : left.find? table.name = none :=
    Tables.find?_drops (List.mem_map_of_mem member) older
  have there : ∀ table ∈ Table.all, fresh.find? table.name = some ⟨table, []⟩ := by
    decide +kernel
  have created : execute { kept := left } (Table.all.map .create) =
      (none, { kept := left ++ fresh }) := execute_creates Table.nodup_names gone
  have found (table : Table) (member : table ∈ Table.all) :
      (left ++ fresh).find? table.name = some ⟨table, []⟩ := by
    rw [Tables.find?_append, gone table member, Option.none_or, there table member]
  refine ⟨left ++ fresh, ?_, ?_⟩
  · rw [take, schema, execute_drops, created]
  · exact ⟨found .packages (by simp [Table.all]), found .modules (by simp [Table.all]),
      found .dependencies (by simp [Table.all]), found .outputs (by simp [Table.all])⟩

private theorem seen_of_changed {tables : Tables} (under : state.changed? = some tables) :
    state.seen = tables := by
  rw [seen, under, Option.getD_some]

private theorem target_of_found {insertion : Insertion} {contents : Contents}
    (found : state.seen.find? insertion.table = some contents)
    (known : ∀ column ∈ insertion.columns, column ∈ contents.table.columns) :
    state.target insertion = .ok contents := by
  have all : insertion.columns.find? (· ∉ contents.table.columns) = none :=
    List.find?_eq_none.mpr fun column member => by simpa using known column member
  rw [target, found]
  dsimp only
  rw [all]

end State

namespace Tables.Hold

variable {tables : Tables} {rows : Rows} (holds : tables.Hold rows) (row : Row)

include holds

end Tables.Hold

namespace State.Fills

variable {state : State} {rows : Rows}

/-- The tables of a run are found for each insertion of one. -/
theorem target (fills : state.Fills rows) {insertion : Insertion}
    (known : insertion ∈ [.packages, .modules, .dependencies, .outputs]) :
    ∃ contents, state.target insertion = .ok contents := by
  obtain ⟨tables, under, holds⟩ := fills.changed
  rw [← seen_of_changed under] at holds
  rcases known with _ | ⟨_, _ | ⟨_, _ | ⟨_, _ | ⟨_, ⟨⟩⟩⟩⟩⟩
  · exact ⟨_, target_of_found holds.packages fun _ => List.mem_cons_of_mem _⟩
  · exact ⟨_, target_of_found holds.modules fun _ => id⟩
  · exact ⟨_, target_of_found holds.dependencies fun _ => id⟩
  · exact ⟨_, target_of_found holds.outputs fun _ => id⟩

theorem commit (fills : state.Fills rows) :
    ∃ kept : Tables, state.take (.execute [.commit]) = (none, { kept }) ∧ kept.Hold rows := by
  obtain ⟨tables, under, holds⟩ := fills.changed
  refine ⟨tables, ?_, holds⟩
  rw [take, execute, run, under]
  rfl

theorem rollback (fills : state.Fills rows) :
    ∃ kept : Tables, state.take (.execute [.rollback]) = (none, { kept }) ∧ kept.Hold {} := by
  obtain ⟨tables, under, _⟩ := fills.changed
  refine ⟨state.kept, ?_, fills.kept⟩
  rw [take, execute, run, under]
  rfl

end State.Fills

namespace Rows

variable {rows : Rows} {row : Row}

/-- Rows of tables without a key can always be added. -/
theorem Keyed.free (keyed : rows.Keyed) (packages dependencies : List Row) :
    (rows ++ { packages, dependencies }).Keyed := by
  refine ⟨?_, ?_⟩
  · rw [modules_append, List.append_nil]
    exact keyed.modules
  · rw [outputs_append, List.append_nil]
    exact keyed.outputs

end Rows

namespace Call

end Call

end Unbundle.Ledger
