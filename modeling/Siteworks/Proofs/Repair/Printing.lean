import Mathlib
import Siteworks.Proofs.Json.Rereading
import Siteworks.Proofs.Repair.Agreement
import Siteworks.Proofs.Words

/-!
# Printed specs

The pretty text of a spec begins with its project, so the name and the slug can be seen in it; and the
project is what is read from it, whatever the contents of the sections are read as. If the contents
are plain, all of the spec is read from its text.
-/

namespace Siteworks

/-- The characters of a slug are not escaped. -/
theorem Json.escapeChar_of_isSlugChar {c : Char} (h : Slug.isSlugChar c = true ∨ c = '-') :
    escapeChar c = [c] :=
  Text.forall_ascii (P := fun c => Slug.isSlugChar c = true ∨ c = '-' → escapeChar c = [c])
    (by decide) (Text.toNat_lt_of_isSlugChar h) h

/-- A slug stands between its quotes as it is. -/
theorem Json.renderString_of_isUrlSafe {slug : String} (h : Slug.isUrlSafe slug = true) :
    renderString slug = "\"" ++ slug ++ "\"" := by
  have hchars : slug.toList.flatMap escapeChar = slug.toList := by
    rw [List.flatMap_congr fun c hc =>
      escapeChar_of_isSlugChar (Slug.isSlugChar_of_isUrlSafe h c hc), List.flatMap_singleton']
  rw [← String.toList_inj, renderString, hchars]
  simp

/-- A printed object begins with its first member, and a comma if there is another one. -/
theorem Json.exists_renderPretty_eq (key : String) (value : Json) (entry : String × Json)
    (entries : List (String × Json)) :
    ∃ behind, (Json.object ((key, value) :: entry :: entries)).renderPretty.toList =
      '\x7b' :: '\n' :: ' ' :: ' ' :: ((renderString key).toList ++ ':' :: ' ' ::
        ((renderPrettyAt 1 value).toList ++ ',' :: behind)) := by
  rw [renderPretty, renderPrettyAt, prettyMembers_eq_map, toList_layOut_cons]
  simp [indentation_eq]

namespace Spec

/-- The beginning of a printed spec: the project of this name and slug, up to the next member. -/
def opening (name slug : String) : String :=
  "\x7b\n  \"project\": \x7b\n    \"name\": " ++ Json.renderString name
    ++ ",\n    \"slug\": \"" ++ slug ++ "\"\n  \x7d,"

variable {spec : Spec}

/-- Behind the project of a spec's document there are other members. -/
theorem exists_members_eq (spec : Spec) :
    ∃ entry entries, spec.members = ("project", spec.project.toJson) :: entry :: entries := by
  obtain ⟨project, _ | architecture, _ | theme, pages⟩ := spec <;> exact ⟨_, _, rfl⟩

/-- The members of a spec's document have different keys. -/
theorem nodup_members (spec : Spec) : (spec.members.map Prod.fst).Nodup := by
  obtain ⟨project, _ | architecture, _ | theme, pages⟩ := spec
  all_goals simp [members, Json.textMember]

/-- A project is printed with its name and its slug. -/
theorem toList_renderPrettyAt_project {project : Project} {slug : String}
    (hslug : project.slug = some slug) (hsafe : Slug.isUrlSafe slug = true) :
    (Json.renderPrettyAt 1 project.toJson).toList = ("\x7b\n    \"name\": " ++
      Json.renderString project.name ++ ",\n    \"slug\": \"" ++ slug ++ "\"\n  \x7d").toList := by
  have hname : Json.renderString "name" = "\"name\"" := by decide
  have hkey : Json.renderString "slug" = "\"slug\"" := by decide
  rw [Project.toJson, Json.renderPrettyAt, Json.prettyMembers_eq_map, Project.members, hslug,
    Json.toList_layOut_cons, Json.textMember]
  simp [Json.indentation_eq, Json.renderPrettyAt, Json.renderString_of_isUrlSafe hsafe, hname, hkey]

/-- A printed spec begins with its project. -/
theorem renderPretty_toJson {slug : String} (hslug : spec.project.slug = some slug)
    (hsafe : Slug.isUrlSafe slug = true) :
    ∃ behind, spec.toJson.renderPretty = opening spec.project.name slug ++ behind := by
  obtain ⟨entry, entries, hmembers⟩ := spec.exists_members_eq
  have hkey : Json.renderString "project" = "\"project\"" := by decide
  have hproject := toList_renderPrettyAt_project hslug hsafe
  obtain ⟨behind, hbehind⟩ :=
    Json.exists_renderPretty_eq "project" spec.project.toJson entry entries
  refine ⟨String.ofList behind, String.toList_inj.mp ?_⟩
  rw [toJson, hmembers, hbehind]
  unfold opening
  simp [hproject, hkey]

end Spec

/-! ## What is read from the text -/

/-- A member with a string value is plain. -/
theorem Json.plain_of_mem_textMember {depth : Nat} {key : String} {value : Option String}
    {entry : String × Json} (h : entry ∈ textMember key value) : entry.2.Plain depth := by
  cases value with
  | none => cases h
  | some text =>
    rw [List.mem_singleton.mp h]
    exact .string text

/-- A project is plain. -/
theorem Project.plain_toJson (project : Project) (depth : Nat) :
    project.toJson.Plain (depth + 1) := by
  refine .object ?_ (List.forall_mem_cons.mpr
    ⟨.string project.name, fun entry h => Json.plain_of_mem_textMember h⟩)
  obtain ⟨name, _ | slug⟩ := project
  all_goals simp [members, Json.textMember]

/-- A theme is plain. -/
theorem Theme.plain_toJson (theme : Theme) (depth : Nat) : theme.toJson.Plain (depth + 1) := by
  refine .object ?_ (List.forall_mem_append.mpr ⟨fun entry h => Json.plain_of_mem_textMember h,
    fun entry h => Json.plain_of_mem_textMember h⟩)
  obtain ⟨_ | color, _ | font⟩ := theme
  all_goals simp [members, Json.textMember]

/-- A section is plain if its content is. -/
theorem Section.plain_toJson {part : Section} {depth : Nat}
    (h : ∀ content ∈ part.content, (Json.object content).Plain depth) :
    part.toJson.Plain (depth + 1) := by
  obtain ⟨id, kind, variant, content⟩ := part
  refine .object ?_ fun entry hentry => ?_
  · rcases variant with _ | variant <;> rcases content with _ | content
    all_goals simp [members, Json.textMember]
  · rcases List.mem_append.mp hentry with hentry | hcontent
    · rcases List.mem_append.mp hentry with hentry | hvariant
      · rcases List.mem_pair.mp hentry with rfl | rfl
        · exact .string id
        · exact .string kind
      · exact Json.plain_of_mem_textMember hvariant
    · cases content with
      | none => cases hcontent
      | some content =>
        rw [List.mem_singleton.mp hcontent]
        exact h content rfl

/-- A page is plain if the contents of its sections are. -/
theorem Page.plain_toJson {page : Page} {depth : Nat} (h : ∀ part ∈ page.sections,
      ∀ content ∈ part.content, (Json.object content).Plain depth) :
    page.toJson.Plain (depth + 3) := by
  have hsections : (Json.array (page.sections.map Section.toJson)).Plain (depth + 2) :=
    .array (List.forall_mem_map.mpr fun part hpart => Section.plain_toJson (h part hpart))
  refine .object (by simp [members]) fun entry hentry => ?_
  simp only [members, List.mem_cons, List.not_mem_nil, or_false] at hentry
  rcases hentry with rfl | rfl | rfl | rfl
  · exact .string page.id
  · exact .string page.name
  · exact .string page.route
  · exact hsections

namespace Spec

variable {spec : Spec}

/-- Whatever its sections hold is plain, nested at most `depth` levels. -/
def PlainContents (spec : Spec) (depth : Nat) : Prop :=
  ∀ page ∈ spec.pages, ∀ part ∈ page.sections, ∀ content ∈ part.content,
    (Json.object content).Plain depth

/-- A spec is plain if the contents of its sections are. -/
theorem PlainContents.plain_toJson {depth : Nat} (h : spec.PlainContents depth) :
    spec.toJson.Plain (depth + 5) := by
  have hpages : (Json.array (spec.pages.map Page.toJson)).Plain (depth + 4) :=
    .array (List.forall_mem_map.mpr fun page hpage => Page.plain_toJson (h page hpage))
  refine .object spec.nodup_members fun entry hentry => ?_
  simp only [members, List.mem_append, List.mem_singleton] at hentry
  rcases hentry with ((rfl | harchitecture) | htheme) | rfl
  · exact spec.project.plain_toJson _
  · exact Json.plain_of_mem_textMember harchitecture
  · cases hspec : spec.theme with
    | none =>
      rw [hspec] at htheme
      cases htheme
    | some theme =>
      rw [hspec] at htheme
      rw [List.mem_singleton.mp htheme]
      exact theme.plain_toJson _
  · exact hpages

/-- What is read from a spec's text has the spec's project in it. -/
theorem at?_of_reread? {depth : Nat} {read : Json} (h : spec.toJson.reread? (depth + 2) = some read)
    (path : List String) :
    Json.at? ("project" :: path) read = Json.at? ("project" :: path) spec.toJson := by
  obtain ⟨entry, entries, hmembers⟩ := spec.exists_members_eq
  have hkeys := spec.nodup_members
  have hproject : Json.reread? (depth + 2 - 1) spec.project.toJson = some spec.project.toJson :=
    (spec.project.plain_toJson depth).reread?_eq
  rw [toJson, Json.reread?, if_neg (by omega)] at h
  obtain ⟨members, hread, rfl⟩ := Option.map_eq_some_iff.mp h
  rw [hmembers] at hread hkeys
  rw [Json.rereadMembers?, hproject, Option.bind_some] at hread
  -- the members behind the project have other keys, so they leave it where it is
  obtain ⟨behind, rfl⟩ := Json.exists_eq_append_of_rereadMembers? hkeys hread
  rw [toJson, hmembers]
  rfl

/-- The text is what is printed of a spec with this slug. -/
structure IsPrinted (spec : Spec) (slug text : String) : Prop where
  /-- It is the pretty text of the spec's document, on lines of its own. -/
  pretty : text = spec.toJson.renderPretty ++ "\n"
  /-- It begins with the project, in which the slug stands between quotes. -/
  opening : ∃ behind, text = opening spec.project.name slug ++ behind
  /-- It is read as what the document is read as. -/
  read_eq : Json.parse? text = spec.toJson.reread? Json.maxDepth
  /-- Whatever is read from it has the slug. -/
  slug_read : ∀ read, Json.parse? text = some read →
    Json.at? ["project", "slug"] read = some (.string slug)
  /-- All of the document is read from it if the contents, five levels down, are plain. -/
  plain_read : spec.PlainContents (Json.maxDepth - 5) → Json.parse? text = some spec.toJson

/-- The slug that a spec carries is in its document. -/
theorem at?_slug_toJson (spec : Spec) :
    Json.at? ["project", "slug"] spec.toJson = spec.project.slug.map .string := by
  obtain ⟨⟨name, slug⟩, architecture, theme, pages⟩ := spec
  cases slug <;> rfl

/-- The pretty text of a spec with a slug for web addresses. -/
theorem isPrinted_renderPretty {slug : String} (hslug : spec.project.slug = some slug)
    (hsafe : Slug.isUrlSafe slug = true) :
    spec.IsPrinted slug (spec.toJson.renderPretty ++ "\n") := by
  have hread := Json.parse?_renderPretty spec.toJson
  refine ⟨rfl, ?_, hread, fun read h => ?_, fun h => ?_⟩
  · obtain ⟨behind, hbehind⟩ := renderPretty_toJson hslug hsafe
    exact ⟨behind ++ "\n", by rw [hbehind, String.append_assoc]⟩
  · rw [hread, Json.maxDepth] at h
    rw [at?_of_reread? h, at?_slug_toJson, hslug, Option.map_some]
  · rw [hread]
    exact h.plain_toJson.reread?_eq

end Spec

end Siteworks
