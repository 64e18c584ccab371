import ScriptedViews.Engine
import ScriptedViews.Proofs.Code.Grouping
import ScriptedViews.Proofs.Code.Nesting
import ScriptedViews.Proofs.Code.Renaming
import ScriptedViews.Proofs.Code.Scripts
import ScriptedViews.Proofs.Config.RoundTrip
import ScriptedViews.Proofs.Document.DeclaredAttributes
import ScriptedViews.Proofs.Document.Namespaces
import ScriptedViews.Proofs.Document.RoundTrip
import ScriptedViews.Proofs.Loader.Directories
import ScriptedViews.Proofs.Pool.Lending
import ScriptedViews.Proofs.Render.Absence
import ScriptedViews.Proofs.Render.Alike.Compiling
import ScriptedViews.Proofs.Render.Alike.Isolation
import ScriptedViews.Proofs.Render.Caches
import ScriptedViews.Proofs.Render.CallAttributes
import ScriptedViews.Proofs.Render.CallScope
import ScriptedViews.Proofs.Render.ChildContent
import ScriptedViews.Proofs.Render.Compilations
import ScriptedViews.Proofs.Render.ErrorChains
import ScriptedViews.Proofs.Render.Holding
import ScriptedViews.Proofs.Render.InitialContext
import ScriptedViews.Proofs.Render.Nesting
import ScriptedViews.Proofs.Render.Printing
import ScriptedViews.Proofs.Text.Lines
import ScriptedViews.Proofs.Uri.NormalForms
import ScriptedViews.Proofs.Xml.TagNames
import ScriptedViews.Text.Hex
