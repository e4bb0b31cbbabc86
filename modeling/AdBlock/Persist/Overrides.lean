import AdBlock.Rust.Text

/-!
# Settings files

A file of settings is written and read as a whole.  A file that is missing or cannot be read
stands for the default settings.
-/

/-- How values are written to a file: what is written is read back. -/
structure Codec (α : Type) where
  encode : α → Text
  decode : Text → Option α
  decode_encode (a : α) : decode (encode a) = some a

namespace OverrideStore

variable {α : Type} [Inhabited α] (codec : Codec α)

def load (file : Option Text) : α :=
  (file.bind codec.decode).getD default

/-- The file after the settings are saved. -/
def save (overrides : α) : Option Text :=
  some (codec.encode overrides)

/-- The file, which is written with the given settings if it is missing. -/
def ensure (overrides : α) (file : Option Text) : Option Text :=
  if file.isNone then save codec overrides else file

@[simp]
theorem load_save (overrides : α) :
  load codec (save codec overrides) = overrides
  := by
  rw [load, save, Option.bind_some, codec.decode_encode, Option.getD_some]

theorem load_ensure_none (overrides : α) :
  load codec (ensure codec overrides none) = overrides
  := load_save codec overrides

end OverrideStore
