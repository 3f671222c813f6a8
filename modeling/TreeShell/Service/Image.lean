/-!
# Images

An image that a command fetched is kept by the session as long as the line that shows it is visible,
and the output only carries a handle. Handles are numbered and never used twice, so a handle to an
image that was released cannot come to mean a later one.

## Main definitions

* `Image`, `ImageHandle`: An image, and a reference to a registered one.
* `Gallery`: The registered images.
* `Gallery.register`, `Gallery.find?`, `Gallery.revoke`, `Gallery.release`: The operations.
-/

namespace TreeShell

/-- The bytes of an image and the type its backend gave, which may be empty. -/
structure Image where
  mime : String
  bytes : List UInt8
  deriving DecidableEq, Repr

/-- A reference to a registered image. -/
structure ImageHandle where
  uri : String
  mime : String
  size : Nat
  deriving DecidableEq, Repr

/-- The registered images under their names, and the number of the next one. -/
structure Gallery where
  images : List (String × Image) := []
  next : Nat := 0
  deriving Repr

namespace Gallery

/-- The name of the image with a number. -/
def uri (n : Nat) : String := "blob:taso/" ++ n.repr

/-- Take an image and hand back a reference to it. -/
def register (g : Gallery) (image : Image) : ImageHandle × Gallery :=
  (⟨uri g.next, image.mime, image.bytes.length⟩,
    ⟨g.images ++ [(uri g.next, image)], g.next + 1⟩)

/-- The image registered under a name. -/
def find? (g : Gallery) (name : String) : Option Image := g.images.lookup name

/-- Release the image under a name. -/
def revoke (g : Gallery) (name : String) : Gallery :=
  { g with images := g.images.filter (·.1 ≠ name) }

/-- Release the image under a name, and say whether there was one. -/
def release (g : Gallery) (name : String) : Bool × Gallery :=
  (g.images.any fun e => e.1 = name, g.revoke name)

/-- How many images are registered. -/
def size (g : Gallery) : Nat := g.images.length

end Gallery

end TreeShell
