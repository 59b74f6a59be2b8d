import CaseSetup.Proofs.Evaluation.Location

/-! # From one definition to the next

To evaluate a definition, all of its value is walked through, but for what is inside nested blocks:
there each entry is a definition of its own and read as one. So one definition leads to another by a
reference, which is looked up from where it is written, or as the block that the other is an entry of. -/

namespace CaseSetup

/-- The value `w` stands at `q` in the value `v` at `p`, and in no nested block of it. -/
inductive Within : Place → Value → Place → Value → Prop
  | self {p : Place} {v : Value} : Within p v p v
  | listItem {p q : Place} {vs : List Value} {i : Nat} {v w : Value} :
    vs[i]? = some v → Within (.item i :: p) v q w → Within p (.list vs) q w
  | tupleItem {p q : Place} {vs : List Value} {i : Nat} {v w : Value} :
    vs[i]? = some v → Within (.item i :: p) v q w → Within p (.tuple vs) q w
  | dictValue {p q : Place} {es : Dict} {k : Key} {v w : Value} :
    (k, v) ∈ es → Within (.key k :: p) v q w → Within p (.dict es) q w
  | operand {p q : Place} {v w : Value} : Within (.operand :: p) v q w → Within p (.neg v) q w
  | left {p q : Place} {op : Op} {l r w : Value} : Within (.left :: p) l q w → Within p (.binary op l r) q w
  | right {p q : Place} {op : Op} {l r w : Value} : Within (.right :: p) r q w → Within p (.binary op l r) q w

/-- The block in which a name that is written in `here` is found: `here` itself, or else the root. -/
def Site.resolve? (root here : Site) (name : String) : Option Site :=
  if here.block.binds name then some here else if root.block.binds name then some root else none

/-- A binding, by the block it is made in and its name. -/
structure Definition where
  site : Site
  name : String

namespace Definition

def ref (d : Definition) : Ref := d.site.ref d.name

/-- The value that is bound, as it was written. -/
def raw? (d : Definition) : Option Value := d.site.block.lookup d.name

/-- Where the value that is bound stands. -/
def place (d : Definition) : Place := .entry d.name :: d.site.place

/-- Evaluating the first definition reads the second. -/
inductive Reads (root : Site) : Definition → Definition → Prop
  | reference {d : Definition} {v : Value} {q : Place} {name : String} {t : Site} :
    d.raw? = some v → Within d.place v q (.var name) → Site.resolve? root d.site name = some t →
    Reads root d ⟨t, name⟩
  | entry {d : Definition} {v : Value} {q : Place} {b : Block} {name : String} :
    d.raw? = some v → Within d.place v q (.block b) → b.binds name → Reads root d ⟨⟨q, b⟩, name⟩

end Definition

namespace Site

variable {root here t : Site} {name : String}

theorem resolve?_eq_some (h : resolve? root here name = some t) :
    (t = here ∨ t = root) ∧ ∃ v, t.block.lookup name = some v := by
  unfold resolve? at h
  split at h
  · rename_i hb
    obtain rfl : here = t := Option.some.inj h
    exact ⟨.inl rfl, Block.binds_eq_true_iff.1 hb⟩
  split at h
  · rename_i hb
    obtain rfl : root = t := Option.some.inj h
    exact ⟨.inr rfl, Block.binds_eq_true_iff.1 hb⟩
  · cases h

theorem resolve?_eq_none (h : resolve? root here name = none) :
    here.block.lookup name = none ∧ root.block.lookup name = none := by
  unfold resolve? at h
  split at h
  · cases h
  rename_i hhere
  split at h
  · cases h
  · rename_i hroot
    exact ⟨Block.binds_eq_false_iff.1 (Bool.eq_false_iff.2 hhere),
      Block.binds_eq_false_iff.1 (Bool.eq_false_iff.2 hroot)⟩

end Site

section

variable {d : Whole} {p q : Place} {v w : Value}

/-- A place within a value is a place of the document. -/
theorem Within.at?_eq_some (h : Within p v q w) (hd : d.isKeyed) (hp : d.at? p = some v) : d.at? q = some w := by
  induction h with
  | self => exact hp
  | listItem hi _ ih | tupleItem hi _ ih => exact ih (Whole.at?_cons hp hi)
  | dictValue he _ ih =>
    have hes := (Value.isKeyed_dict.1 (Whole.isKeyed_of_at hd hp)).1
    exact ih (Whole.at?_cons hp (Entries.lookup_of_mem hes he))
  | operand _ ih | left _ ih | right _ ih => exact ih (Whole.at?_cons hp rfl)

namespace Definition

variable {c e : Definition}

/-- What is read is bound, in a block that stands where it is said to. -/
theorem Reads.holds (h : Reads (.root d.root) c e) (hd : d.isKeyed) (hc : d.Holds c.site) :
    d.Holds e.site ∧ ∃ v, e.raw? = some v := by
  cases h with
  | reference hv hw ht =>
    obtain ⟨rfl | rfl, hbound⟩ := Site.resolve?_eq_some ht
    · exact ⟨hc, hbound⟩
    · exact ⟨Whole.holds_root, hbound⟩
  | entry hv hw hb => exact ⟨hw.at?_eq_some hd (Whole.at?_cons hc hv), Block.binds_eq_true_iff.1 hb⟩

/-- Definitions of the document that have one place and one name are one. -/
theorem eq_of_ref_eq (hc : d.Holds c.site) (he : d.Holds e.site) (h : c.ref = e.ref) : c = e := by
  obtain ⟨⟨p, b⟩, n⟩ := c
  obtain ⟨⟨q, b'⟩, m⟩ := e
  obtain ⟨rfl, rfl⟩ : p = q ∧ n = m := by simpa [ref, Site.ref] using h
  obtain rfl : b = b' := hc.block_eq he rfl
  rfl

end Definition

end

end CaseSetup
