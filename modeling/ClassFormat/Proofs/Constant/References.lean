/-
# ClassFormat.Proofs.Constant.References: what entries refer to

An entry stores indices of others, forwards or backwards, and each of them belongs to an entry of
certain kinds.  Following indices from an entry reaches entries, whether their kinds are right or
not, and may come to an index that finds nothing.

Only method handles can lead from one to another without end, since any entry may stand where the
member of a handle belongs.  If no handle leads back to itself, the handles on the way from an entry
are all different, and there are no more of them than entries.
-/
import ClassFormat.Constant.Render
import ClassFormat.Proofs.Outcome
import ClassFormat.Proofs.SlotTable
import Mathlib.Data.List.Nodup
import Mathlib.Logic.Relation

namespace ClassFormat

instance {α : Type} [DecidableEq α] : DecidableEq (Rendering α) :=
  inferInstanceAs (DecidableEq (Option (Except Error α)))

/-! ## Stored indices -/

/-- The kinds of member that a method handle is for. -/
def HandleKind.memberKinds : HandleKind → List ConstantKind
  | getField | getStatic | putField | putStatic => [.fieldRef]
  | invokeVirtual | invokeStatic | invokeSpecial | newInvokeSpecial | invokeInterface =>
    [.methodRef, .interfaceMethodRef]

/-- The indices that an entry stores, each with the kinds of entry that belong there. -/
def Constant.references : Constant → List (PoolIndex × List ConstantKind)
  | utf8 _ | integer _ | float _ | long _ | double _ => []
  | classRef text | string text | methodType text | moduleRef text | packageRef text =>
    [(text, [.utf8])]
  | fieldRef ref | methodRef ref | interfaceMethodRef ref =>
    [(ref.owner, [.classRef]), (ref.nameAndType, [.nameAndType])]
  | nameAndType pair => [(pair.name, [.utf8]), (pair.descriptor, [.utf8])]
  | methodHandle handle => [(handle.reference, handle.kind.memberKinds)]
  | dynamic ref | invokeDynamic ref => [(ref.nameAndType, [.nameAndType])]

namespace ConstantPool

/-- One entry stores an index at which the other is found. -/
def Leads (pool : ConstantPool) (holder found : Constant) : Prop :=
  ∃ index kinds, (index, kinds) ∈ holder.references ∧ pool.get index = .ok found

/-- An entry is another one, or found from it by following stored indices. -/
def Reaches (pool : ConstantPool) : Constant → Constant → Prop := Relation.ReflTransGen pool.Leads

/-- An index is stored in an entry, or in one found from it by following stored indices. -/
def ReachesIndex (pool : ConstantPool) (constant : Constant) (index : PoolIndex) : Prop :=
  ∃ holder kinds, pool.Reaches constant holder ∧ (index, kinds) ∈ holder.references

/-- A handle stands at one index and refers to the other. -/
def HandleStep (pool : ConstantPool) (index next : PoolIndex) : Prop :=
  ∃ handle, pool.get index = .ok (.methodHandle handle) ∧ handle.reference = next

/-- No handle leads back to itself by the references of handles. -/
def HandlesEnd (pool : ConstantPool) : Prop :=
  ∀ index, ¬ Relation.TransGen pool.HandleStep index index

section Entries

variable {pool : ConstantPool} {index : PoolIndex} {constant : Constant}

/-- What an index finds is listed with that index. -/
theorem mem_entries_of_get (h : pool.get index = .ok constant) :
    (index, constant) ∈ pool.entries := by
  have hfound : (pool.slots.lookup index.toNat).element? = some constant := by
    unfold get at h
    split at h
    · rename_i found hfound
      cases h
      exact hfound
    · cases h
  cases hlookup : pool.slots.lookup index.toNat with
  | found position found =>
    rw [hlookup] at hfound
    cases hfound
    have hentry := (SlotTable.lookup_eq_found.mp hlookup).2
    refine List.mem_map.mpr ⟨(index.toNat, position, constant), ?_, ?_⟩
    · refine List.mem_map.mpr ⟨((index.toNat, constant), position), ?_, rfl⟩
      rw [List.mem_zipIdx_iff_getElem?, Array.getElem?_toList]
      exact hentry
    · show (UInt16.ofNat index.toNat, constant) = (index, constant)
      rw [UInt16.ofNat_toNat]
  | between position | beyond =>
    rw [hlookup] at hfound
    cases hfound

theorem length_entries (pool : ConstantPool) : pool.entries.length = pool.size := by
  simp [entries, SlotTable.toList, size, SlotTable.size]

/-- Different indices that all find something cannot outnumber the entries. -/
theorem length_le_size {indices : List PoolIndex} (hnodup : indices.Nodup)
    (hget : ∀ index ∈ indices, ∃ constant, pool.get index = .ok constant) :
    indices.length ≤ pool.size := by
  have hsubset : indices ⊆ pool.entries.map Prod.fst := by
    intro index hindex
    obtain ⟨constant, hconstant⟩ := hget index hindex
    exact List.mem_map.mpr ⟨_, mem_entries_of_get hconstant, rfl⟩
  calc indices.length ≤ (pool.entries.map Prod.fst).length := hnodup.length_le_of_subset hsubset
    _ = pool.size := by rw [List.length_map, length_entries]

end Entries

/-! ## Chains of handles -/

/-- From an entry on there are at most `depth` handles in a row. -/
inductive HandlesWithin (pool : ConstantPool) : (depth : Nat) → Constant → Prop
  | other {depth : Nat} {constant : Constant} (h : ∀ handle, constant ≠ .methodHandle handle) :
      HandlesWithin pool depth constant
  | handle {depth : Nat} {handle : MethodHandle}
      (h : ∀ found, handle.target pool = .ok found → HandlesWithin pool depth found) :
      HandlesWithin pool (depth + 1) (.methodHandle handle)

section Handles

variable {pool : ConstantPool}

/-- The handles that lead to an entry which is on no circle are different from each other and from
it, so there are fewer of them than entries in the pool. -/
theorem length_trail_lt {trail : List PoolIndex} {index : PoolIndex} {constant : Constant}
    (hget : pool.get index = .ok constant) (hends : ¬ Relation.TransGen pool.HandleStep index index)
    (hnodup : trail.Nodup)
    (htrail : ∀ passed ∈ trail, Relation.TransGen pool.HandleStep passed index) :
    trail.length < pool.size := by
  have hfresh : index ∉ trail := fun hmem => hends (htrail index hmem)
  apply length_le_size (List.nodup_cons.mpr ⟨hfresh, hnodup⟩)
  intro passed hpassed
  rcases List.mem_cons.mp hpassed with rfl | hmem
  · exact ⟨_, hget⟩
  · obtain ⟨next, ⟨handle, hhandle, -⟩, -⟩ := Relation.TransGen.head'_iff.mp (htrail passed hmem)
    exact ⟨_, hhandle⟩

/-- No handle that the one at an index leads to, itself included, leads back to itself. -/
def EndsFrom (pool : ConstantPool) (index : PoolIndex) : Prop :=
  ∀ next, Relation.ReflTransGen pool.HandleStep index next →
    ¬ Relation.TransGen pool.HandleStep next next

theorem EndsFrom.handlesWithin_of_trail {depth : Nat} {trail : List PoolIndex} {index : PoolIndex}
    {constant : Constant} (hends : pool.EndsFrom index) (hget : pool.get index = .ok constant)
    (hnodup : trail.Nodup)
    (htrail : ∀ passed ∈ trail, Relation.TransGen pool.HandleStep passed index)
    (hdepth : pool.size ≤ trail.length + depth) : HandlesWithin pool depth constant := by
  induction depth generalizing trail index constant with
  | zero =>
    exact absurd (length_trail_lt hget (hends index .refl) hnodup htrail)
      (Nat.not_lt_of_le hdepth)
  | succ depth ih =>
    by_cases hhandle : ∃ handle, constant = .methodHandle handle
    · obtain ⟨handle, rfl⟩ := hhandle
      have hstep : pool.HandleStep index handle.reference := ⟨handle, hget, rfl⟩
      have hfresh : index ∉ trail := fun hmem => hends index .refl (htrail index hmem)
      apply HandlesWithin.handle
      intro found hfound
      apply ih (fun next hnext => hends next (hnext.head hstep)) hfound
        (List.nodup_cons.mpr ⟨hfresh, hnodup⟩)
      · intro passed hpassed
        rcases List.mem_cons.mp hpassed with rfl | hmem
        · exact .single hstep
        · exact (htrail passed hmem).tail hstep
      · rw [List.length_cons]
        omega
    · exact .other fun handle heq => hhandle ⟨handle, heq⟩

/-- If the handles behind an entry come to an end, they do so within the size of the pool. -/
theorem handlesWithin_of_endsFrom {constant : Constant}
    (h : ∀ handle, constant = .methodHandle handle → ∀ found, handle.target pool = .ok found →
      pool.EndsFrom handle.reference) :
    HandlesWithin pool (pool.size + 1) constant := by
  by_cases hhandle : ∃ handle, constant = .methodHandle handle
  · obtain ⟨handle, rfl⟩ := hhandle
    apply HandlesWithin.handle
    intro found hfound
    apply (h handle rfl found hfound).handlesWithin_of_trail hfound List.nodup_nil
    · exact fun passed hpassed => absurd hpassed List.not_mem_nil
    · simp
  · exact .other fun handle heq => hhandle ⟨handle, heq⟩

theorem HandlesEnd.handlesWithin (hends : pool.HandlesEnd) (constant : Constant) :
    HandlesWithin pool (pool.size + 1) constant :=
  handlesWithin_of_endsFrom fun _ _ _ _ next _ => hends next

/-- A handle that leads to a circle is followed by another one that does, so the handles do not come
to an end. -/
theorem HandlesWithin.endsFrom {depth : Nat} {constant : Constant} {index : PoolIndex}
    (h : HandlesWithin pool depth constant) (hget : pool.get index = .ok constant) :
    pool.EndsFrom index := by
  intro last hreaches hcircle
  induction h generalizing index with
  | other hother =>
    obtain ⟨next, ⟨handle, hhandle, -⟩, -⟩ :=
      Relation.TransGen.head'_iff.mp (hcircle.trans_right hreaches)
    rw [hget] at hhandle
    exact hother handle (Except.ok.inj hhandle)
  | @handle depth handle _ ih =>
    obtain ⟨next, ⟨own, hown, rfl⟩, hbehind⟩ :=
      Relation.TransGen.head'_iff.mp (hcircle.trans_right hreaches)
    rw [hget] at hown
    cases hown
    obtain ⟨-, ⟨other, hother, -⟩, -⟩ :=
      Relation.TransGen.head'_iff.mp (hcircle.trans_right hbehind)
    exact ih _ hother hother hbehind

/-- Handles that all refer to smaller indices do not lead back to themselves. -/
theorem handlesEnd_of_lt
    (h : ∀ index handle, (index, .methodHandle handle) ∈ pool.entries → handle.reference < index) :
    pool.HandlesEnd := by
  have hdown : ∀ {index next}, Relation.TransGen pool.HandleStep index next → next < index := by
    intro index next hsteps
    induction hsteps with
    | single hstep =>
      obtain ⟨handle, hget, rfl⟩ := hstep
      exact h _ _ (mem_entries_of_get hget)
    | tail _ hstep ih =>
      obtain ⟨handle, hget, rfl⟩ := hstep
      exact UInt16.lt_trans (h _ _ (mem_entries_of_get hget)) ih
  exact fun index hcycle => UInt16.lt_irrefl index (hdown hcycle)

/-- An entry is rendered in one way, however many handles may be followed beyond those it needs. -/
theorem renderWithin_of_le {depth fuel : Nat} {constant : Constant}
    (h : HandlesWithin pool depth constant) (hfuel : depth ≤ fuel) :
    constant.renderWithin pool fuel = constant.renderWithin pool depth := by
  induction h generalizing fuel with
  | @other depth constant hother =>
    cases constant with
    | methodHandle handle => exact absurd rfl (hother handle)
    | _ => simp only [Constant.renderWithin]
  | @handle depth handle _ ih =>
    obtain ⟨less, rfl⟩ : ∃ less, fuel = less + 1 := ⟨fuel - 1, by omega⟩
    rw [Constant.renderWithin, Constant.renderWithin]
    cases htarget : handle.target pool with
    | error cause => rfl
    | ok found =>
      have hsame := ih found htarget (show depth ≤ less by omega)
      show (do return handle.kind.label ++ " " ++ (← found.renderWithin pool less))
        = (do return handle.kind.label ++ " " ++ (← found.renderWithin pool depth) :
            Rendering String)
      rw [hsame]

/-- Rendering comes to an end within some number of handles only if the handles do. -/
theorem handlesWithin_of_renderWithin {fuel : Nat} {constant : Constant}
    {outcome : Except Error String} (h : constant.renderWithin pool fuel = some outcome) :
    HandlesWithin pool fuel constant := by
  induction fuel generalizing constant outcome with
  | zero =>
    apply HandlesWithin.other
    rintro handle rfl
    rw [Constant.renderWithin] at h
    cases h
  | succ fuel ih =>
    by_cases hhandle : ∃ handle, constant = .methodHandle handle
    · obtain ⟨handle, rfl⟩ := hhandle
      apply HandlesWithin.handle
      intro found hfound
      rw [Constant.renderWithin, hfound] at h
      cases hrest : found.renderWithin pool fuel with
      | some rest => exact ih hrest
      | none =>
        change (found.renderWithin pool fuel >>= fun text =>
          return handle.kind.label ++ " " ++ text) = some outcome at h
        rw [hrest] at h
        cases h
    · exact .other fun handle heq => hhandle ⟨handle, heq⟩

/-- An entry has the outcome that it has for some number of handles, and none if rendering does not
end however many are followed. -/
theorem render_eq_some_iff {constant : Constant} {outcome : Except Error String} :
    constant.render pool = some outcome
      ↔ ∃ fuel, constant.renderWithin pool fuel = some outcome := by
  constructor
  · exact fun h => ⟨_, h⟩
  · rintro ⟨fuel, h⟩
    have hwithin := handlesWithin_of_renderWithin h
    have hbounded : HandlesWithin pool (pool.size + 1) constant := by
      apply handlesWithin_of_endsFrom
      rintro handle rfl found hfound
      cases hwithin with
      | other hother => exact absurd rfl (hother handle)
      | handle hbehind => exact (hbehind found hfound).endsFrom hfound
    -- Both numbers of handles are enough, and so is the greater one.
    rw [Constant.render, ← h, ← renderWithin_of_le hbounded (Nat.le_max_right fuel _),
      renderWithin_of_le hwithin (Nat.le_max_left fuel _)]

end Handles

end ConstantPool

end ClassFormat
