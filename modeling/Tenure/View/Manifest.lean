import Tenure.Project.Manifest
import Tenure.View.Access

/- Manifests as data. -/
namespace Tenure.View

def showManifest (m : Manifest) : Json :=
  let c := m.config
  .obj [
    ("package", .str c.package), ("sources", Json.strs c.sources), ("out_dir", .str c.outDir),
    ("jobs", .int c.jobs), ("keep_tmp", .bool c.keepTemp), ("toolchain", .str c.toolchain),
    ("edition", .str c.edition), ("release", .bool c.release), ("max", .int c.maxFindings),
    ("warnings", .bool c.warnings), ("catalog", .str c.catalog),
    ("source_paths", Json.strs m.sourcePaths), ("out_path", .str m.outDir),
    ("catalog_path", .str m.catalogPath)]

end Tenure.View
