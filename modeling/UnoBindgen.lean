import UnoBindgen.Main
import UnoBindgen.Proofs.Cli.Checking
import UnoBindgen.Proofs.Emission.Placeholders
import UnoBindgen.Proofs.Generation.Cancellation
import UnoBindgen.Proofs.Generation.Isolation
import UnoBindgen.Proofs.Generation.Leftovers
import UnoBindgen.Proofs.Naming.Capture
import UnoBindgen.Proofs.Naming.Legality
import UnoBindgen.Proofs.Naming.Vocabulary
import UnoBindgen.Proofs.Settings.Backups
import UnoBindgen.Proofs.Settings.Precedence
import UnoBindgen.Proofs.Settings.Provenance
import UnoBindgen.Text.Template
import UnoBindgen.Proofs.Plan.Obstacles
import UnoBindgen.Proofs.Emission.ArgumentArray
import UnoBindgen.Proofs.Emission.WrapperReading
import UnoBindgen.Proofs.Naming.Hygiene
import UnoBindgen.Proofs.Emission.Declarations
import UnoBindgen.Proofs.Emission.SingletonBase
import UnoBindgen.Proofs.Registry.Clashes
import UnoBindgen.Proofs.Comparison.Exactness
import UnoBindgen.Proofs.Generation.Recording
import UnoBindgen.Proofs.Emission.Accessors
import UnoBindgen.Proofs.ModulePath.Correspondence
import UnoBindgen.Proofs.Entity.Exactness
import UnoBindgen.Proofs.Naming.Lexical
import UnoBindgen.Proofs.Settings.Changing
import UnoBindgen.Proofs.Schema.Decoding
import UnoBindgen.Proofs.Settings.Listing
import UnoBindgen.Proofs.Cli.Assigning
