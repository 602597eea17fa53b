import StyleFunctions.Color.Rgba

/-! Blend modes: a source color laid over a backdrop. -/

namespace StyleFunctions

inductive BlendMode where
  | multiply
  | screen
  | overlay
  | softLight
  | hardLight
  | difference
  | exclusion
  | average
  | negation
  deriving DecidableEq, Repr

namespace BlendMode

def all : List BlendMode :=
  [.multiply, .screen, .overlay, .softLight, .hardLight, .difference, .exclusion, .average,
    .negation]

def name : BlendMode → String
  | .multiply => "multiply"
  | .screen => "screen"
  | .overlay => "overlay"
  | .softLight => "softlight"
  | .hardLight => "hardlight"
  | .difference => "difference"
  | .exclusion => "exclusion"
  | .average => "average"
  | .negation => "negation"

section Scalar

variable {α : Type} [Scalar α]

def multiplyChannel (cb cs : α) : α := cb * cs

def screenChannel (cb cs : α) : α := cb + cs - cb * cs

/-- Multiplies on the dark half of the backdrop and screens on the light half, each stretched to the
whole range. -/
def overlayChannel (cb cs : α) : α :=
  let doubled := cb * 2
  if doubled ≤ 1 then multiplyChannel doubled cs else screenChannel (doubled - 1) cs

end Scalar

variable {α : Type} [Elementary α]

def softLightChannel (cb cs : α) : α :=
  let (d, e) :=
    if 0.5 < cs then (if 0.25 < cb then Elementary.sqrt cb else ((16 * cb - 12) * cb + 4) * cb, 1)
    else (1, cb)
  cb - (1 - 2 * cs) * e * (d - cb)

/-- The blend of one channel of the backdrop with one of the source, as fractions, both without
transparency. -/
def channel (mode : BlendMode) (cb cs : α) : α :=
  match mode with
  | .multiply => multiplyChannel cb cs
  | .screen => screenChannel cb cs
  | .overlay => overlayChannel cb cs
  | .softLight => softLightChannel cb cs
  | .hardLight => overlayChannel cs cb
  | .difference => Scalar.abs (cb - cs)
  | .exclusion => cb + cs - 2 * cb * cs
  | .average => (cb + cs) / 2
  | .negation => 1 - Scalar.abs (cb + cs - 1)

/-- The alpha of a source over a backdrop. -/
def coverage (ab as : α) : α := as + ab * (1 - as)

/-- A blended channel weighted by both alphas; where nothing is covered the blended channel stays.
-/
def composite (mode : BlendMode) (ab as b s : α) : α :=
  let cb := b / 255
  let cs := s / 255
  let cr := mode.channel cb cs
  let ar := coverage ab as
  (if 0 < ar then (as * cs + ab * (cb - as * (cb + cs - cr))) / ar else cr) * 255

/-- The source laid over the backdrop. -/
def blend (mode : BlendMode) (backdrop source : Rgba α) : Rgba α :=
  let laid := mode.composite backdrop.alpha source.alpha
  ⟨laid backdrop.red source.red, laid backdrop.green source.green, laid backdrop.blue source.blue,
    coverage backdrop.alpha source.alpha⟩

end BlendMode

end StyleFunctions
