import Siteworks.Spec.Basic

/-!
# Section components

The components that a scaffold has for sections, by kind and variant, and how each is exported from
its source file.
-/

namespace Siteworks

/-- How a source file exposes its component. -/
inductive ExportStyle where
  /-- As the default export. -/
  | default
  /-- Under its own name. -/
  | named
  deriving DecidableEq, Repr

/-- A component that renders a section. -/
structure Component where
  /-- The kind of section it renders. -/
  kind : String
  /-- The variant of the kind. -/
  variant : String
  /-- The identifier in imports and tags. -/
  ident : String
  /-- The stem of its source file. -/
  module : String
  /-- How its source file exposes it. -/
  exported : ExportStyle
  deriving DecidableEq, Repr

namespace Component

/-- The directory of component sources, below a project root. -/
def directory : String := "components/sections"

/-- What imports write for the directory of component sources. -/
def importDirectory : String := "@/components/sections"

/-- Every component, in the order in which users are told of them. -/
def registered : List Component :=
  [⟨"navbar", "default", "Navbar", "navbar", .default⟩,
   ⟨"hero", "default", "Hero", "hero", .default⟩,
   ⟨"hero", "split", "HeroSplit", "hero-split", .default⟩,
   ⟨"hero", "centered", "HeroCentered", "hero-centered", .named⟩,
   ⟨"features", "default", "FeaturesGrid", "features-grid", .named⟩,
   ⟨"features", "list", "FeaturesList", "features-list", .named⟩,
   ⟨"pricing", "default", "PricingTable", "pricing-table", .default⟩,
   ⟨"testimonials", "default", "Testimonials", "testimonials", .default⟩,
   ⟨"faq", "default", "Faq", "faq", .named⟩,
   ⟨"cta", "default", "CallToAction", "call-to-action", .named⟩,
   ⟨"product-grid", "default", "ProductGrid", "product-grid", .named⟩,
   ⟨"listing-grid", "default", "ListingGrid", "listing-grid", .named⟩,
   ⟨"footer", "default", "Footer", "footer", .default⟩]

/-- The component registered for a kind and a variant. -/
def find? (kind variant : String) : Option Component :=
  registered.find? fun c => c.kind = kind && c.variant = variant

/-- Every registered pair of kind and variant, as users are told of them. -/
def pairs : List String := registered.map fun c => c.kind ++ "/" ++ c.variant

end Component

end Siteworks
