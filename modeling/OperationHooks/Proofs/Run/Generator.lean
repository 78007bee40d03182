import OperationHooks.Proofs.Glob
import OperationHooks.Run.Hooks

set_option autoImplicit false

namespace OperationHooks.HookGenerator

def Follows (g : HookGenerator) (o : HookOptions) : Prop :=
  ∃ formatting formattingBroken templates, g = { options := o, setup := {
    policy := o.policy
    hook := ⟨o.namePrefix,o.extension.text,o.destination,o.outputPath,o.skipsMismatch,
      templates,formatting,
      formattingBroken⟩
    index := ⟨o.extension.text,o.batchIndex,Index.standardNested,formatting⟩ } }

variable {env : Format.Environment} {d : Disk} {o : HookOptions} {g : HookGenerator}

theorem ofOptions_spec (h : ofOptions env d o = .ok g) : g.Follows o ∧ ∃ style formatter,
    Config.styleOptions d o.configPath o.extension.text = .ok style ∧
      Config.formatter o.formatters.toList = .ok formatter ∧
      g.setup.hook.formatting = Format.Formatter.format env style formatter ∧
      g.setup.hook.formattingBroken = Format.Formatter.formatBroken env style formatter ∧
      g.setup.index.formatting = Format.Formatter.format env style formatter := by
  unfold ofOptions at h
  cases hs : Config.styleOptions d o.configPath o.extension.text with
  | error e => rw [hs] at h; cases h
  | ok style =>
    cases hf : Config.formatter o.formatters.toList with
    | error e => rw [hs,hf] at h; cases h
    | ok formatter =>
      cases ht : Hook.templateDirectory d o.templates with
      | error e => rw [hs,hf,ht] at h; cases h
      | ok templates =>
        rw [hs,hf,ht] at h
        obtain rfl := Except.ok.inj h
        exact ⟨⟨_,_,templates,rfl⟩,style,formatter,rfl,rfl,rfl,rfl,rfl⟩

theorem follows_of_ofOptions (h : ofOptions env d o = .ok g) : g.Follows o := (ofOptions_spec h).1

theorem basic_of_ofOptions (hg : ofOptions env d o = .ok g)
    (ho : o.formatters.toList = ["basic"]) : ∃ style,
      Config.styleOptions d o.configPath o.extension.text = .ok style ∧
      g.setup.hook.formatting = Format.Formatter.format env style [.basic] ∧
      g.setup.index.formatting = Format.Formatter.format env style [.basic] := by
  obtain ⟨-,style,formatter,hstyle,hformatter,hhook,-,hindex⟩ := ofOptions_spec hg
  rw [ho] at hformatter
  obtain rfl : [Format.Tool.basic] = formatter := Except.ok.inj hformatter
  exact ⟨style,hstyle,hhook,hindex⟩

theorem outputDirectory_eq (hg : g.Follows o) (source : Path) :
    g.setup.hook.outputDirectory source =
      o.outputPath.getD (source.parent / o.destination).fold := by
  obtain ⟨formatting,broken,templates,rfl⟩ := hg
  unfold Hook.Settings.outputDirectory
  cases o.outputPath <;> rfl

theorem outputDirectories_eq (hg : g.Follows o) (files : List Path) :
    g.outputDirectories files =
      Path.sorted (files.map
        fun source => o.outputPath.getD (source.parent / o.destination).fold) := by
  unfold outputDirectories
  rw [List.map_congr_left fun source _ => outputDirectory_eq hg source]

/-- Files are discovered as the options say, by them alone. -/
theorem discover_eq_ok (hg : g.Follows o) {d' : Disk} {files : List Path} :
    g.discover d' = .ok files ↔
      OperationHooks.discover d' o.root o.pattern [s!"index.{o.extension.text}"] = .ok files := by
  obtain ⟨formatting,broken,templates,rfl⟩ := hg
  unfold HookGenerator.discover
  rw [show Index.Settings.fileName _ = s!"index.{o.extension.text}" from rfl]
  cases OperationHooks.discover d' o.root o.pattern [s!"index.{o.extension.text}"] <;>
    simp [Effect.mapError_ok,Effect.mapError_error]

theorem mem_outputDirectories {files : List Path} {directory : Path} :
    directory ∈ g.outputDirectories files ↔
    ∃ p ∈ files, g.setup.hook.outputDirectory p = directory := by
  simp [outputDirectories,Path.mem_sorted]

theorem dotless_outputDirectory (hroot : o.root.Dotless) (hg : g.Follows o) {source : Path}
    (hs : source.Dotless) : (g.setup.hook.outputDirectory source).Dotless := by
  rw [outputDirectory_eq hg]
  cases hp : o.outputPath with
  | none =>
    exact Path.dotless_fold (Path.dotless_join (Path.dotless_parent hs) (Path.dotless_ofString _))
  | some root =>
    obtain ⟨text,-,rfl⟩ := Option.map_eq_some_iff.1 hp
    exact Path.dotless_join hroot (Path.dotless_ofString _)

theorem dotless_outputDirectories {d' : Disk} (hroot : o.root.Dotless) (hg : g.Follows o)
    {files : List Path} (hf : g.discover d' = .ok files) {directory : Path}
    (h : directory ∈ g.outputDirectories files) : directory.Dotless := by
  obtain ⟨p,hp,rfl⟩ := mem_outputDirectories.1 h
  exact dotless_outputDirectory hroot hg
    (dotless_of_mem_discover hroot ((discover_eq_ok hg).1 hf) hp)

theorem plain_outputDirectory (hroot : o.root.Plain) (hg : g.Follows o) {source : Path}
    (hs : source.Plain) : (g.setup.hook.outputDirectory source).Plain := by
  rw [outputDirectory_eq hg]
  cases hp : o.outputPath with
  | none =>
    exact Path.plain_fold (Path.plain_join (Path.plain_parent hs) (Path.plain_ofString _))
  | some root =>
    obtain ⟨text,-,rfl⟩ := Option.map_eq_some_iff.1 hp
    exact Path.plain_join hroot (Path.plain_ofString _)

theorem plain_outputDirectories (hroot : o.root.Plain) (hg : g.Follows o) {files : List Path}
    (hf : ∀ p ∈ files, p.Plain) {directory : Path} (h : directory ∈ g.outputDirectories files) :
    directory.Plain := by
  obtain ⟨p,hp,rfl⟩ := mem_outputDirectories.1 h
  exact plain_outputDirectory hroot hg (hf p hp)

theorem dotless_of_plain (hroot : o.root.Plain) (hg : g.Follows o) {files : List Path}
    (hf : ∀ p ∈ files, p.Plain) : ∀ directory ∈ g.outputDirectories files, directory.Dotless :=
  fun _ hd => (plain_outputDirectories hroot hg hf hd).dotless

/-- Where there are several output directories each of them is folded. -/
theorem pairwise_upright (hg : g.Follows o) (files : List Path) :
    (g.outputDirectories files).Pairwise fun first second => first.Upright ∧ second.Upright := by
  have hnodup : (g.outputDirectories files).Nodup := Path.nodup_sorted _
  refine List.Pairwise.imp_of_mem (fun {first second} h h' hne => ?_) hnodup
  obtain ⟨p,-,rfl⟩ := mem_outputDirectories.1 h
  obtain ⟨q,-,rfl⟩ := mem_outputDirectories.1 h'
  rw [outputDirectory_eq hg,outputDirectory_eq hg] at hne ⊢
  cases ho : o.outputPath with
  | none => exact ⟨Path.upright_fold _,Path.upright_fold _⟩
  | some root => rw [ho] at hne; exact absurd rfl hne

theorem outputDirectories_congr (hroot : o.root.Plain) (hg : g.Follows o)
    {files files' : List Path} (hf : ∀ p ∈ files, p.Plain) (h : ∀ p, p ∈ files' ↔ p ∈ files) :
    g.outputDirectories files' = g.outputDirectories files := by
  refine Path.sorted_congr (fun q hq => ?_) fun q => ?_
  · obtain ⟨p,hp,rfl⟩ := List.mem_map.1 hq
    exact plain_outputDirectory hroot hg (hf p ((h p).1 hp))
  · simp only [List.mem_map,h]

end OperationHooks.HookGenerator
