/-
# ClassFormat.Proofs.Attribute.Declared: attributes and what they declare of themselves

An attribute declares a name and the length of its body.  `Attribute.StoredIn pool bytes held` says
that some bytes are an attribute with exactly that length, and that its contents are what the layout
of the name makes of exactly the body.

One level is enough to prove.  The attributes inside a body are read by the reader of attributes
itself, so they are stored in the body in the same way, and from there any depth is reached by
following `Attribute.Within`.
-/
import ClassFormat.Proofs.Attribute.Nesting
import ClassFormat.Proofs.Layout.Truncation

namespace ClassFormat

open Reader (Consumes Ensures Sequential)

/-! ## Parts inside a layout -/

/-- What stands in the parts of a value stands in the value. -/
theorem Contains.flatMap {α β : Type} {layout : List UInt8 → β → Prop} {parts : α → List β}
    {bytes : List UInt8} {values : List α}
    (h : Contains (fun own value => Contains layout own (parts value)) bytes values) :
    Contains layout bytes (values.flatMap parts) := by
  intro part hpart
  obtain ⟨value, hvalue, hpart⟩ := List.mem_flatMap.mp hpart
  obtain ⟨own, hown, hcontains⟩ := h value hvalue
  exact hcontains.mono hown part hpart

namespace Reader.Consumes

variable {α β γ : Type} {reader : Reader α} {next : α → Reader β}
  {layout : β → List UInt8 → γ → Prop} {parts : β → List γ}

/-- A reader in front only moves the parts back. -/
theorem contains_behind (h : Sequential reader)
    (hnext : ∀ value,
      Consumes (next value) fun own result => Contains (layout result) own (parts result)) :
    Consumes (reader >>= next) fun own result => Contains (layout result) own (parts result) :=
  h.consumes.bind fun value own _ =>
    (hnext value).mono fun _ _ hparts => hparts.behind own

theorem toEnd : Consumes Reader.toEnd fun own bytes => own = bytes := by
  intro input bytes left h
  unfold Reader.toEnd at h
  split at h
  · rename_i hending
    cases h
    refine ⟨input.bytes, ?_, rfl⟩
    rw [List.append_nil]
  · cases h

end Reader.Consumes

/-! ## Bodies -/

theorem Code.contains_inner {inner : Reader Attribute} {layout : List UInt8 → Attribute → Prop}
    (h : Consumes inner layout) :
    Consumes (Code.readerOf inner) fun own code => Contains layout own code.attributes := by
  refine .contains_behind Sequential.u16 fun maxStack => ?_
  refine .contains_behind Sequential.u16 fun maxLocals => ?_
  refine .contains_behind Sequential.u32 fun length => ?_
  refine .contains_behind (Sequential.run length.toNat) fun bytes => ?_
  refine .contains_behind (Sequential.lift (Code.check bytes)) fun _ => ?_
  refine .contains_behind ExceptionHandler.sequential.table fun handlers => ?_
  exact h.table_contains.map fun attributes own hown => hown

theorem RecordComponent.contains_inner {inner : Reader Attribute}
    {layout : List UInt8 → Attribute → Prop} (h : Consumes inner layout) :
    Consumes (RecordComponent.readerOf inner) fun own component =>
      Contains layout own component.attributes := by
  refine .contains_behind Sequential.u16 fun name => ?_
  refine .contains_behind Sequential.u16 fun descriptor => ?_
  exact h.table_contains.map fun attributes own hown => hown

namespace AttributeInfo

/-- A layout gives contents of its own kind. -/
theorem readerOf_kind (inner : Reader Attribute) (kind : AttributeKind) :
    Ensures (readerOf inner kind) fun info => info.kind? = some kind := by
  cases kind with
  | synthetic | deprecated => exact .pure rfl
  | _ => exact .skip fun _ => .pure rfl

/-- Every layout, also the one that takes whatever there is, takes a front of its input. -/
theorem consumesOf {inner : Reader Attribute} (h : Sequential inner) (kind : AttributeKind) :
    Consumes (readerOf inner kind) fun _ _ => True := by
  by_cases hkind : kind = .sourceDebugExtension
  · subst hkind
    exact Consumes.toEnd.map fun _ _ _ => trivial
  · exact (sequentialOf h hkind).consumes.mono fun _ _ _ => trivial

/-- The attributes inside a body stand in its bytes, as the reader that is given for them says. -/
theorem contains_inner {inner : Reader Attribute} {layout : List UInt8 → Attribute → Prop}
    (hinner : Consumes inner layout) {kind : AttributeKind} {body : List UInt8}
    {info : AttributeInfo} {left : Input}
    (h : readerOf inner kind { bytes := body } = .ok (info, left)) :
    Contains layout body info.inner := by
  have hflat : Ensures (readerOf inner kind) (fun info => info.inner = []) →
      Contains layout body info.inner := by
    intro hempty
    rw [hempty _ info left h]
    exact Contains.nil
  have hnested : Consumes (readerOf inner kind) (fun own info => Contains layout own info.inner) →
      Contains layout body info.inner := by
    intro hconsumes
    obtain ⟨own, hbody, hown⟩ := hconsumes _ info left h
    injection hbody with hbody
    rw [hbody]
    exact hown.before left.bytes
  -- Only method bodies and records hold attributes again.
  cases kind with
  | code => exact hnested ((Code.contains_inner hinner).map fun _ _ hown => hown)
  | record =>
    apply hnested
    exact (RecordComponent.contains_inner hinner).table_contains.map fun _ _ hown => hown.flatMap
  | synthetic | deprecated => exact hflat (.pure rfl)
  | _ => exact hflat (.skip fun _ => .pure rfl)

/-- A body is accepted under a name that is not known, and then kept, or because the layout of the
name takes all of it. -/
theorem ofBody_eq_ok {inner : Reader Attribute} (hinner : Sequential inner) {name : String}
    {body : List UInt8} {info : AttributeInfo} (h : ofBody inner name body = .ok info) :
    (AttributeKind.ofName? name = none ∧ info = .custom body)
      ∨ ∃ kind, AttributeKind.ofName? name = some kind
          ∧ readerOf inner kind { bytes := body } = .ok (info, { bytes := [] }) := by
  unfold ofBody at h
  split at h
  · rename_i hname
    cases h
    exact Or.inl ⟨hname, rfl⟩
  · rename_i kind hname
    split at h
    · cases h
    · rename_i found left hread
      split at h
      · rename_i hempty
        cases h
        obtain ⟨own, hbody, -⟩ := consumesOf hinner kind _ _ _ hread
        obtain ⟨bytes, ending⟩ := left
        injection hbody with _ hending
        obtain rfl : bytes = [] := List.isEmpty_iff.mp hempty
        subst hending
        exact Or.inr ⟨kind, hname, hread⟩
      · cases h

end AttributeInfo

/-! ## Attributes -/

namespace Attribute

theorem reader_eq (pool : ConstantPool) : reader pool = readerOf pool (reader pool) :=
  (nested_reader pool).tied_eq

/-- The bytes in front of a body: the index of the name and the length of the body. -/
def header (nameIndex : PoolIndex) (body : List UInt8) : List UInt8 :=
  Writer.u16 nameIndex ++ Writer.u32 (UInt32.ofNat body.length)

/-- The bytes are an attribute of the given name and body, and the contents are what the name makes
of the body: the body itself under a name that is not known, and otherwise what the layout of the
name reads from all of it. -/
structure Declares (pool : ConstantPool) (bytes : List UInt8) (held : Attribute) (name : String)
    (body : List UInt8) : Prop where
  bytes_eq : bytes = header held.nameIndex body ++ body
  length_lt : body.length < UInt32.size
  named : pool.utf8 held.nameIndex = .ok name
  kind_eq : held.info.kind? = AttributeKind.ofName? name
  custom : AttributeKind.ofName? name = none → held.info = .custom body
  known : ∀ kind, AttributeKind.ofName? name = some kind →
    AttributeInfo.reader pool kind { bytes := body } = .ok (held.info, { bytes := [] })

/-- The bytes are an attribute, under some name and with some body. -/
def StoredIn (pool : ConstantPool) (bytes : List UInt8) (held : Attribute) : Prop :=
  ∃ name body, Declares pool bytes held name body

theorem Declares.length_eq {pool : ConstantPool} {bytes body : List UInt8} {held : Attribute}
    {name : String} (h : Declares pool bytes held name body) : bytes.length = 6 + body.length := by
  rw [h.bytes_eq]
  simp [header]
  omega

/-- Contents that a name makes of a body are stored under that name, in front of that body. -/
theorem declares_of_ofBody {pool : ConstantPool} {nameIndex : PoolIndex} {name : String}
    {body : List UInt8} {info : AttributeInfo} (hlength : body.length < UInt32.size)
    (hname : pool.utf8 nameIndex = .ok name)
    (h : AttributeInfo.ofBody (reader pool) name body = .ok info) :
    Declares pool (header nameIndex body ++ body) ⟨nameIndex, info⟩ name body := by
  rcases AttributeInfo.ofBody_eq_ok (sequential pool) h with ⟨hnone, rfl⟩ | ⟨kind, hsome, hread⟩
  · exact ⟨rfl, hlength, hname, hnone.symm, fun _ => rfl, fun kind hkind => by simp_all⟩
  · have hkind : info.kind? = some kind := AttributeInfo.readerOf_kind _ kind _ _ _ hread
    refine ⟨rfl, hlength, hname, hkind.trans hsome.symm, fun hnone => ?_, fun other hother => ?_⟩
    · simp_all
    · obtain rfl : kind = other := Option.some.inj (hsome.symm.trans hother)
      exact hread

/-- An attribute is stored in exactly the bytes that reading it takes. -/
theorem consumes_storedIn (pool : ConstantPool) : Consumes (reader pool) (StoredIn pool) := by
  rw [reader_eq]
  refine Consumes.u16.bind fun nameIndex _ hindex => ?_
  refine Consumes.lift_bind fun name hname => ?_
  refine Consumes.u32.bind fun length _ hlength => ?_
  refine (Consumes.run length.toNat).bind fun _ body hbody => ?_
  obtain ⟨rfl, hcount⟩ := hbody
  refine Consumes.lift_bind fun info hinfo => .pure ?_
  subst hindex hlength
  have hlt : body.length < UInt32.size := hcount ▸ length.toNat_lt
  have hlength : length = UInt32.ofNat body.length := by
    rw [hcount, UInt32.ofNat_toNat]
  refine ⟨name, body, ?_⟩
  have hdeclares := declares_of_ofBody hlt hname hinfo
  rw [header, ← hlength] at hdeclares
  simpa using hdeclares

/-- The attributes inside a stored attribute are stored in its bytes. -/
theorem StoredIn.inner {pool : ConstantPool} {bytes : List UInt8} {held : Attribute}
    (h : StoredIn pool bytes held) : Contains (StoredIn pool) bytes held.info.inner := by
  obtain ⟨name, body, h⟩ := h
  rw [h.bytes_eq]
  cases hname : AttributeKind.ofName? name with
  | none =>
    rw [h.custom hname]
    exact Contains.nil
  | some kind =>
    have hbody : Contains (StoredIn pool) body held.info.inner :=
      AttributeInfo.contains_inner (consumes_storedIn pool) (h.known kind hname)
    exact hbody.behind (header held.nameIndex body)

/-- Where the attributes of an owner are stored, so are those inside them, at any depth. -/
theorem contains_within {pool : ConstantPool} {bytes : List UInt8} {owned : List Attribute}
    (h : Contains (StoredIn pool) bytes owned) {held : Attribute} (hheld : Within owned held) :
    ∃ part, part <:+: bytes ∧ StoredIn pool part held := by
  induction hheld with
  | direct hmem => exact h _ hmem
  | inside _ hinner ih =>
    obtain ⟨part, hpart, hstored⟩ := ih
    exact hstored.inner.mono hpart _ hinner

theorem contains_tableReader (pool : ConstantPool) :
    Consumes (tableReader pool) (Contains (StoredIn pool)) :=
  (consumes_storedIn pool).table_contains

end Attribute

/-! ## Class files -/

theorem Member.contains_attributes {carrier : FlagCarrier} (pool : ConstantPool) :
    Consumes (Member.reader pool : Reader (Member carrier)) fun own member =>
      Contains (Attribute.StoredIn pool) own member.attributes := by
  refine .contains_behind Flags.sequential fun flags => ?_
  refine .contains_behind Sequential.u16 fun nameIndex => ?_
  refine .contains_behind Sequential.u16 fun descriptorIndex => ?_
  exact (Attribute.contains_tableReader pool).map fun attributes own hown => hown

/-- The attributes of a class file, of its fields and of its methods are stored in its bytes. -/
theorem ClassFile.contains_ownedAttributes :
    Consumes reader fun own file =>
      Contains (Attribute.StoredIn file.pool) own file.ownedAttributes := by
  refine .contains_behind sequential_magic fun _ => ?_
  refine .contains_behind Version.sequential fun version => ?_
  refine .contains_behind ConstantPool.sequential fun pool => ?_
  refine .contains_behind Flags.sequential fun flags => ?_
  refine .contains_behind Sequential.u16 fun thisClass => ?_
  refine .contains_behind (Sequential.lift (pool.className thisClass)) fun _ => ?_
  refine .contains_behind Sequential.optionalIndex fun superClass => ?_
  refine .contains_behind Sequential.u16.table fun interfaces => ?_
  refine (Member.contains_attributes pool).table_contains.bind fun fields before hfields => ?_
  refine (Member.contains_attributes pool).table_contains.bind fun methods between hmethods => ?_
  refine (Attribute.contains_tableReader pool).map fun attributes behind hattributes => ?_
  have hfields := hfields.flatMap.before (between ++ behind)
  have hmethods := (hmethods.flatMap.before behind).behind before
  exact ((hattributes.behind between).behind before).append (hfields.append hmethods)

/-! ## Bodies of the wrong length -/

/-- The reader needs a byte behind the given ones: where the source fails there, so does it. -/
def Reader.AsksBehind {α : Type} (reader : Reader α) (bytes : List UInt8) : Prop :=
  ∀ reason, reader ⟨bytes, .broken reason⟩ = .error (.unreadable reason)

namespace Reader.Sequential

variable {α : Type} {reader : Reader α}

theorem malformed_of_asksBehind (h : Sequential reader) {bytes : List UInt8}
    (hasks : reader.AsksBehind bytes) :
    ∃ defect, reader ⟨bytes, .finished⟩ = .error (.malformed defect) := by
  cases h bytes with
  | @reads own rest value hbytes hreads =>
    have hok := hreads rest (.broken "")
    rw [← hbytes, hasks] at hok
    cases hok
  | refuses cause hrefuses =>
    -- Bytes that are refused are refused for one cause, however the source fails behind them.
    have hone := hrefuses [] (.broken "one")
    have hother := hrefuses [] (.broken "other")
    rw [List.append_nil, hasks] at hone hother
    have hsame : Error.unreadable "one" = .unreadable "other" :=
      (Except.error.inj hone).trans (Except.error.inj hother).symm
    exact absurd hsame (by decide)
  | starves hstarves =>
    obtain ⟨cause, hcause, hexplains⟩ := hstarves .finished
    cases hexplains with
    | finished defect => exact ⟨defect, hcause⟩

/-- A reader that takes more than the given bytes when there are more of them needs those. -/
theorem asksBehind_of_ok (h : Sequential reader) {bytes more : List UInt8} {ending : Ending}
    {value : α} {left : Input} (hok : reader ⟨bytes ++ more, ending⟩ = .ok (value, left))
    (hleft : left.bytes.length < more.length) : reader.AsksBehind bytes := by
  intro reason
  obtain ⟨own, hinput, hreads⟩ := h.consumes _ _ _ hok
  injection hinput with hbytes
  have hlength := congrArg List.length hbytes
  simp only [List.length_append] at hlength
  have hlt : bytes.length < own.length := by omega
  have hfront : own.take bytes.length = bytes := by
    have htake := congrArg (List.take bytes.length) hbytes
    rw [List.take_left, List.take_append_of_le_length (by omega)] at htake
    exact htake.symm
  obtain ⟨cause, hcause, hexplains⟩ := h.starves_of_lt hreads hlt (.broken reason)
  rw [hfront] at hcause
  cases hexplains with
  | broken => exact hcause

end Reader.Sequential

/-- A body that its layout does not use exactly. -/
inductive AttributeInfo.Misfits (pool : ConstantPool) (kind : AttributeKind) (body : List UInt8) :
    Prop
  /-- The layout is read from a front of the body, short of all of it. -/
  | leaves {n : Nat} {ending : Ending} {info : AttributeInfo} {left : Input} (hn : n < body.length)
      (h : AttributeInfo.reader pool kind ⟨body.take n, ending⟩ = .ok (info, left))
  /-- The layout needs a byte behind the body. -/
  | asks (h : (AttributeInfo.reader pool kind).AsksBehind body)
  /-- The layout is read from a longer body, and takes more than this one. -/
  | overruns {more : List UInt8} {ending : Ending} {info : AttributeInfo} {left : Input}
      (h : AttributeInfo.reader pool kind ⟨body ++ more, ending⟩ = .ok (info, left))
      (hmore : left.bytes.length < more.length)

namespace AttributeInfo.Misfits

variable {pool : ConstantPool} {kind : AttributeKind} {body : List UInt8}

/-- Reading such a body fails, or leaves a part of it. -/
theorem malformed_or_left (h : Misfits pool kind body) (hkind : kind ≠ .sourceDebugExtension) :
    (∃ defect, reader pool kind { bytes := body } = .error (.malformed defect))
      ∨ ∃ info left, reader pool kind { bytes := body } = .ok (info, left) ∧ left.bytes ≠ [] := by
  have hsequential : Sequential (reader pool kind) :=
    sequentialOf (Attribute.sequential pool) hkind
  cases h with
  | @leaves n ending info left hn h =>
    obtain ⟨own, hinput, hreads⟩ := hsequential.consumes _ _ _ h
    injection hinput with hfront
    have hbody : body = own ++ (left.bytes ++ body.drop n) := by
      rw [← List.append_assoc, ← hfront, List.take_append_drop]
    refine Or.inr ⟨info, ⟨left.bytes ++ body.drop n, .finished⟩, ?_, ?_⟩
    · rw [← hreads (left.bytes ++ body.drop n) .finished, ← hbody]
    · intro hempty
      have hdrop : body.drop n = [] := (List.append_eq_nil_iff.mp hempty).2
      exact absurd (List.drop_eq_nil_iff.mp hdrop) (Nat.not_le.mpr hn)
  | asks h => exact Or.inl (hsequential.malformed_of_asksBehind h)
  | overruns h hmore =>
    exact Or.inl (hsequential.malformed_of_asksBehind (hsequential.asksBehind_of_ok h hmore))

/-- Such a body is refused under the name of its kind. -/
theorem ofBody_malformed (h : Misfits pool kind body) (hkind : kind ≠ .sourceDebugExtension)
    {name : String} (hname : AttributeKind.ofName? name = some kind) :
    ∃ defect, ofBody (Attribute.reader pool) name body = .error (.malformed defect) := by
  unfold ofBody
  simp only [hname]
  rcases h.malformed_or_left hkind with ⟨defect, herror⟩ | ⟨info, left, hok, hleft⟩
  · refine ⟨defect, ?_⟩
    rw [show readerOf (Attribute.reader pool) kind { bytes := body } = _ from herror]
  · refine ⟨.attributeLength name body.length (body.length - left.bytes.length), ?_⟩
    rw [show readerOf (Attribute.reader pool) kind { bytes := body } = _ from hok]
    simp [hleft]

end AttributeInfo.Misfits

namespace Attribute

/-- Behind a name and a length that are there, an attribute is what the name makes of the body. -/
theorem readerOf_header {pool : ConstantPool} {inner : Reader Attribute} {nameIndex : PoolIndex}
    {name : String} {body : List UInt8} (hname : pool.utf8 nameIndex = .ok name)
    (hlength : body.length < UInt32.size) (rest : List UInt8) (ending : Ending) :
    readerOf pool inner ⟨header nameIndex body ++ (body ++ rest), ending⟩
      = (AttributeInfo.ofBody inner name body).map
          fun info => (⟨nameIndex, info⟩, ⟨rest, ending⟩) := by
  have hcount : body.length = (UInt32.ofNat body.length).toNat :=
    (UInt32.toNat_ofNat_of_lt' hlength).symm
  have hname : ∀ input, Reader.lift (pool.utf8 nameIndex) input = .ok (name, input) := fun input =>
    Reads.lift hname input.bytes input.ending
  unfold readerOf header
  rw [List.append_assoc, Reader.bind_of_ok (Reads.u16 nameIndex _ ending),
    Reader.bind_of_ok (hname _), Reader.bind_of_ok (Reads.u32 _ _ ending),
    Reader.bind_of_ok (Reads.run hcount rest ending)]
  cases AttributeInfo.ofBody inner name body with
  | error cause => rfl
  | ok info => rfl

/-- Every attribute is what it declares.  One that is read is a name, a length and a body of that
length, and its contents are what the name makes of the body; the same goes for all attributes
inside it and for all attributes of a class file that is read.  A body that the layout of its name
does not use exactly is refused. -/
theorem reader_matches_declared (pool : ConstantPool) :
    (∀ input held left, reader pool input = .ok (held, left) →
      ∃ own name body, input = ⟨own ++ left.bytes, left.ending⟩ ∧ own.length = 6 + body.length
        ∧ Declares pool own held name body
        ∧ ∀ other, Within [held] other → ∃ part, part <:+: own ∧ StoredIn pool part other)
    ∧ (∀ input file left, ClassFile.reader input = .ok (file, left) →
      ∀ held, file.Holds held → ∃ part, part <:+: input.bytes ∧ StoredIn file.pool part held)
    ∧ ∀ nameIndex name kind body rest ending, pool.utf8 nameIndex = .ok name →
      AttributeKind.ofName? name = some kind → kind ≠ .sourceDebugExtension →
      body.length < UInt32.size → AttributeInfo.Misfits pool kind body →
      ∃ defect, reader pool ⟨header nameIndex body ++ (body ++ rest), ending⟩
        = .error (.malformed defect) := by
  refine ⟨fun input held left h => ?_, fun input file left h held hheld => ?_, ?_⟩
  · obtain ⟨own, hinput, hstored⟩ := consumes_storedIn pool input held left h
    have hwithin : ∀ other, Within [held] other →
        ∃ part, part <:+: own ∧ StoredIn pool part other :=
      fun other => contains_within fun value hvalue =>
        ⟨own, List.infix_refl own, List.mem_singleton.mp hvalue ▸ hstored⟩
    obtain ⟨name, body, hdeclares⟩ := hstored
    exact ⟨own, name, body, hinput, hdeclares.length_eq, hdeclares, hwithin⟩
  · obtain ⟨own, hinput, howned⟩ := ClassFile.contains_ownedAttributes input file left h
    rw [hinput]
    exact contains_within (howned.before left.bytes) hheld
  · intro nameIndex name kind body rest ending hname hkind hne hlength hmisfits
    obtain ⟨defect, hdefect⟩ := hmisfits.ofBody_malformed hne hkind
    refine ⟨defect, ?_⟩
    rw [reader_eq, readerOf_header hname hlength, hdefect]
    rfl

/-- The annotations inside the record of the sample class, its method body on its own, and a record
with a byte too many. -/
theorem reader_matches_declared_nestedSample :
    (∃ part, part <:+: ClassFile.nestedSample.encode
        ∧ StoredIn ClassFile.nestedSample.pool part ClassFile.sampleAnnotations)
      ∧ (∃ name body, Declares ClassFile.nestedSample.pool ClassFile.sampleBody.encode
          ClassFile.sampleBody name body)
      ∧ AttributeInfo.Misfits ClassFile.nestedSample.pool .record [0, 0, 7]
      ∧ ∃ defect, reader ClassFile.nestedSample.pool
          ⟨header 4 [0, 0, 7] ++ ([0, 0, 7] ++ []), .finished⟩ = .error (.malformed defect) := by
  have hfile : ClassFile.reader ⟨ClassFile.nestedSample.encode, .finished⟩
      = .ok (ClassFile.nestedSample, ⟨[], .finished⟩) := rfl
  have hholds : ClassFile.nestedSample.Holds ClassFile.sampleAnnotations :=
    .inside (.direct (List.mem_cons_self : ClassFile.sampleRecord ∈ _)) (List.mem_singleton_self _)
  have hbody : reader ClassFile.nestedSample.pool ⟨ClassFile.sampleBody.encode, .finished⟩
      = .ok (ClassFile.sampleBody, ⟨[], .finished⟩) := rfl
  have hfront : AttributeInfo.reader ClassFile.nestedSample.pool .record
      ⟨[0, 0, 7].take 2, .finished⟩ = .ok (.record [], ⟨[], .finished⟩) := rfl
  have hmisfits : AttributeInfo.Misfits ClassFile.nestedSample.pool .record [0, 0, 7] :=
    .leaves (by decide) hfront
  obtain ⟨hread, hholding, hrefused⟩ := reader_matches_declared ClassFile.nestedSample.pool
  refine ⟨hholding _ _ _ hfile _ hholds, ?_, hmisfits,
    hrefused 4 "Record" .record _ [] .finished rfl rfl (by decide) (by decide) hmisfits⟩
  obtain ⟨own, name, body, hinput, -, hdeclares, -⟩ := hread _ _ _ hbody
  injection hinput with hown
  rw [List.append_nil] at hown
  exact ⟨name, body, hown ▸ hdeclares⟩

end Attribute

end ClassFormat
