import Records.Library.Models
import Records.Proofs.Staging.Overwritten

/-!
The schema of the library meets what the theory asks of a schema.
-/
namespace Records.Library

theorem keyed : schema.Keyed := ⟨by decide, by decide, by decide⟩

theorem referential : schema.Referential where
  toKeyed := keyed
  names := by decide
  keys := by decide +kernel
  parents := by
    have hlinks : ∀ m ∈ schema.models, ∀ h ∈ schema.handles m, ∀ h' ∈ schema.handles m,
        h.relation.link = h'.relation.link → h = h' := by decide +kernel
    exact fun m hm h hh h' hh' fk hlink hlink' =>
      hlinks m hm h hh h' hh' (hlink.trans hlink'.symm)

theorem regular : schema.Regular where
  toReferential := referential
  refers := by decide +kernel
  order := by decide +kernel
  apart := by decide +kernel
  marks := by decide +kernel
  undotted := by decide +kernel

theorem stamped : schema.Stamped where
  toRegular := regular
  stamps := by decide +kernel

end Records.Library
